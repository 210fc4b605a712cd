/-!
The layout of memory: its size, and the part of it that is left to programs.
-/
namespace Chip8

abbrev memorySize : Nat := 4096

/-- The address at which programs are put and execution starts. -/
abbrev programStart : Nat := 0x200

abbrev programLimit : Nat := memorySize - programStart

end Chip8
