/-!
The instruction set. An operand keeps the width it has in the machine: `x` and `y` name registers,
`kk` is a byte, `n` a row count and `nnn` an address. Nothing here bounds them further;
`Instruction.ofWord?` yields only operands that fit their digits of the word.
-/
namespace Chip8

inductive Instruction where
  | clearDisplay                  -- 00E0
  | ret                           -- 00EE
  | jump (nnn : UInt16)           -- 1nnn
  | call (nnn : UInt16)           -- 2nnn
  | skipIfByte (x kk : UInt8)     -- 3xkk
  | skipUnlessByte (x kk : UInt8) -- 4xkk
  | skipIfSame (x y : UInt8)      -- 5xy0
  | setByte (x kk : UInt8)        -- 6xkk
  | addByte (x kk : UInt8)        -- 7xkk
  | copy (x y : UInt8)            -- 8xy0
  | or (x y : UInt8)              -- 8xy1
  | and (x y : UInt8)             -- 8xy2
  | xor (x y : UInt8)             -- 8xy3
  | add (x y : UInt8)             -- 8xy4
  | subtract (x y : UInt8)        -- 8xy5
  | shiftRight (x : UInt8)        -- 8xy6
  | skipUnlessSame (x y : UInt8)  -- 9xy0
  | setIndex (nnn : UInt16)       -- Annn
  | jumpDisplaced (nnn : UInt16)  -- Bnnn
  | random (x kk : UInt8)         -- Cxkk
  | draw (x y n : UInt8)          -- Dxyn
  | skipIfKeyDown (x : UInt8)     -- Ex9E
  | skipIfKeyUp (x : UInt8)       -- ExA1
  | readDelay (x : UInt8)         -- Fx07
  | awaitKey (x : UInt8)          -- Fx0A
  | setDelay (x : UInt8)          -- Fx15
  | setSound (x : UInt8)          -- Fx18
  | addIndex (x : UInt8)          -- Fx1E
  | pointGlyph (x : UInt8)        -- Fx29
  | storeDigits (x : UInt8)       -- Fx33
  | storeRegisters (x : UInt8)    -- Fx55
  | loadRegisters (x : UInt8)     -- Fx65
  deriving DecidableEq, Repr

end Chip8
