import SchemePlayer.Text.Case

/-!
# Operation codes

Each instruction is one byte, followed by an operand whose layout the operation
fixes. The table here is the single source of code, mnemonic, operand layout and net
effect on the stack; decoder, listing and assembler all read it.
-/

namespace SchemePlayer

/-- The layout of the operand that follows an operation code. -/
inductive OperandKind where
  | none
  | float64
  | int32
  | string
  | slot
  | jump
  | byte
  deriving DecidableEq, Repr

namespace OperandKind

/-- The number of bytes an operand takes. -/
def size : OperandKind → Nat
  | none => 0
  | float64 => 8
  | int32 => 4
  | string => 2
  | slot => 2
  | jump => 2
  | byte => 1

/-- The number by which a layout is known outside. -/
def code : OperandKind → Nat
  | none => 0
  | float64 => 1
  | int32 => 2
  | string => 3
  | slot => 4
  | jump => 5
  | byte => 6

end OperandKind

/-- The operations. -/
inductive Opcode where
  | nop | pop | dup
  | pushFloat | pushInt | pushString
  | pushVar | pushOld | storeVar | pushDefault
  | add | sub | mul | div | mod | neg
  | eq | ne | lt | gt | le | ge
  | iadd | isub | iand | ior | ieq | ine
  | not | and | or
  | floatToInt | intToFloat | floatToString | stringToFloat
  | concat | strEq | strLen
  | jump | jumpIfFalse | jumpIfTrue | ret
  | closeAll | getAsyncKeyState | system | getClassDir | addSlash | getProjectDir | sendMessage
  | getScreenWidth | getScreenHeight | openSchemeWindow | loadSpaceWindow | createWindowEx
  | createDir | fileExist | createStream | closeWindow
  deriving DecidableEq, Repr

namespace Opcode

/-- What the table says about an operation. The effect is the change of the stack's
height; `none` when it depends on the operand. -/
structure Info where
  code : UInt8
  name : String
  operand : OperandKind
  effect : Option Int

/-- The table of operations. -/
def info : Opcode → Info
  | nop => ⟨0x00, "NOP", .none, some 0⟩
  | pop => ⟨0x01, "POP", .none, some (-1)⟩
  | dup => ⟨0x02, "DUP", .none, some 1⟩
  | pushFloat => ⟨0x10, "PUSH_FLOAT", .float64, some 1⟩
  | pushInt => ⟨0x11, "PUSH_INT", .int32, some 1⟩
  | pushString => ⟨0x12, "PUSH_STRING", .string, some 1⟩
  | pushVar => ⟨0x20, "PUSH_VAR", .slot, some 1⟩
  | pushOld => ⟨0x21, "PUSH_OLD", .slot, some 1⟩
  | storeVar => ⟨0x22, "STORE_VAR", .slot, some (-1)⟩
  | pushDefault => ⟨0x23, "PUSH_DEFAULT", .slot, some 1⟩
  | add => ⟨0x30, "ADD", .none, some (-1)⟩
  | sub => ⟨0x31, "SUB", .none, some (-1)⟩
  | mul => ⟨0x32, "MUL", .none, some (-1)⟩
  | div => ⟨0x33, "DIV", .none, some (-1)⟩
  | mod => ⟨0x34, "MOD", .none, some (-1)⟩
  | neg => ⟨0x35, "NEG", .none, some 0⟩
  | eq => ⟨0x36, "EQ", .none, some (-1)⟩
  | ne => ⟨0x37, "NE", .none, some (-1)⟩
  | lt => ⟨0x38, "LT", .none, some (-1)⟩
  | gt => ⟨0x39, "GT", .none, some (-1)⟩
  | le => ⟨0x3A, "LE", .none, some (-1)⟩
  | ge => ⟨0x3B, "GE", .none, some (-1)⟩
  | iadd => ⟨0x40, "IADD", .none, some (-1)⟩
  | isub => ⟨0x41, "ISUB", .none, some (-1)⟩
  | iand => ⟨0x42, "IAND", .none, some (-1)⟩
  | ior => ⟨0x43, "IOR", .none, some (-1)⟩
  | ieq => ⟨0x44, "IEQ", .none, some (-1)⟩
  | ine => ⟨0x45, "INE", .none, some (-1)⟩
  | not => ⟨0x48, "NOT", .none, some 0⟩
  | and => ⟨0x49, "AND", .none, some (-1)⟩
  | or => ⟨0x4A, "OR", .none, some (-1)⟩
  | floatToInt => ⟨0x50, "FLOAT_TO_INT", .none, some 0⟩
  | intToFloat => ⟨0x51, "INT_TO_FLOAT", .none, some 0⟩
  | floatToString => ⟨0x52, "FLOAT_TO_STRING", .none, some 0⟩
  | stringToFloat => ⟨0x53, "STRING_TO_FLOAT", .none, some 0⟩
  | concat => ⟨0x58, "CONCAT", .none, some (-1)⟩
  | strEq => ⟨0x59, "STR_EQ", .none, some (-1)⟩
  | strLen => ⟨0x5A, "STR_LEN", .none, some 0⟩
  | jump => ⟨0x60, "JUMP", .jump, some 0⟩
  | jumpIfFalse => ⟨0x61, "JUMP_IF_FALSE", .jump, some (-1)⟩
  | jumpIfTrue => ⟨0x62, "JUMP_IF_TRUE", .jump, some (-1)⟩
  | ret => ⟨0x68, "RETURN", .none, some 0⟩
  | closeAll => ⟨0x70, "CLOSE_ALL", .none, some 0⟩
  | getAsyncKeyState => ⟨0x71, "GET_ASYNC_KEY_STATE", .none, some 0⟩
  | system => ⟨0x72, "SYSTEM", .byte, none⟩
  | getClassDir => ⟨0x73, "GET_CLASS_DIR", .none, some 0⟩
  | addSlash => ⟨0x74, "ADD_SLASH", .none, some 0⟩
  | getProjectDir => ⟨0x75, "GET_PROJECT_DIR", .none, some 1⟩
  | sendMessage => ⟨0x76, "SEND_MESSAGE", .none, some (-1)⟩
  | getScreenWidth => ⟨0x80, "GET_SCREEN_WIDTH", .none, some 1⟩
  | getScreenHeight => ⟨0x81, "GET_SCREEN_HEIGHT", .none, some 1⟩
  | openSchemeWindow => ⟨0x82, "OPEN_SCHEME_WINDOW", .none, some (-2)⟩
  | loadSpaceWindow => ⟨0x83, "LOAD_SPACE_WINDOW", .none, some (-2)⟩
  | createWindowEx => ⟨0x84, "CREATE_WINDOW_EX", .none, some (-7)⟩
  | createDir => ⟨0x85, "CREATE_DIR", .none, some 0⟩
  | fileExist => ⟨0x86, "FILE_EXIST", .none, some 0⟩
  | createStream => ⟨0x87, "CREATE_STREAM", .none, some (-2)⟩
  | closeWindow => ⟨0x88, "CLOSE_WINDOW", .none, some 0⟩

/-- All operations, in ascending order of their codes. -/
def all : List Opcode :=
  [nop, pop, dup, pushFloat, pushInt, pushString, pushVar, pushOld, storeVar, pushDefault,
    add, sub, mul, div, mod, neg, eq, ne, lt, gt, le, ge, iadd, isub, iand, ior, ieq, ine,
    not, and, or, floatToInt, intToFloat, floatToString, stringToFloat, concat, strEq, strLen,
    jump, jumpIfFalse, jumpIfTrue, ret, closeAll, getAsyncKeyState, system, getClassDir,
    addSlash, getProjectDir, sendMessage, getScreenWidth, getScreenHeight, openSchemeWindow,
    loadSpaceWindow, createWindowEx, createDir, fileExist, createStream, closeWindow]

/-- The byte that stands for an operation. -/
def code (op : Opcode) : UInt8 := op.info.code

/-- The mnemonic of an operation. -/
def name (op : Opcode) : Text := op.info.name

/-- The operand layout of an operation. -/
def operand (op : Opcode) : OperandKind := op.info.operand

/-- The operation a byte stands for. -/
def ofByte? (b : UInt8) : Option Opcode := all.find? fun op => op.code == b

/-- The name shown for a byte in code, whether or not it stands for an operation. -/
def nameOfByte (b : UInt8) : Text :=
  match ofByte? b with
  | some op => op.name
  | none => "UNKNOWN_" ++ Text.hex true 2 b.toNat

/-- The operation with a mnemonic, upper or lower case. -/
def lookup? (mnemonic : Text) : Option Opcode :=
  let key := Text.upper mnemonic
  all.find? fun op => op.name == key

theorem mem_all (op : Opcode) : op ∈ all := by cases op <;> decide

theorem ofByte?_code (op : Opcode) : ofByte? op.code = some op := by cases op <;> rfl

theorem code_of_ofByte? {b : UInt8} {op : Opcode} (h : ofByte? b = some op) : op.code = b := by
  simpa using List.find?_some h

end Opcode

end SchemePlayer
