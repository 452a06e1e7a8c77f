import StarOS.Layout

/-!
# The key tables (`keyevent_table.cpp`) and the scan codes they were generated from

`keyTable` and `keyeventTable` are the tables of the kernel.  `sortedScanCodes` is the document
`sorted_scan_codes.txt` they are generated from: the bytes of a scan code, the name of the key and
whether it was pressed, line by line.
-/

namespace StarOS

structure KeyboardKey where
  id : Nat
  name : String

structure KeyEvent where
  eventId : Nat
  keyId : Nat
  keyname : String
  isPressed : Bool
deriving DecidableEq

/-- a line of `sorted_scan_codes.txt` -/
structure ScanCode where
  bytes : List UInt8
  name : String
  pressed : Bool
deriving DecidableEq

def keyTable : List KeyboardKey := [
  ⟨0x0, "invalid key"⟩, ⟨0x1, "escape"⟩, ⟨0x2, "1"⟩, ⟨0x3, "2"⟩, ⟨0x4, "3"⟩, ⟨0x5, "4"⟩,
  ⟨0x6, "5"⟩, ⟨0x7, "6"⟩, ⟨0x8, "7"⟩, ⟨0x9, "8"⟩, ⟨0xa, "9"⟩, ⟨0xb, "0"⟩, ⟨0xc, "-"⟩, ⟨0xd, "="⟩,
  ⟨0xe, "backspace"⟩, ⟨0xf, "tab"⟩, ⟨0x10, "Q"⟩, ⟨0x11, "W"⟩, ⟨0x12, "E"⟩, ⟨0x13, "R"⟩,
  ⟨0x14, "T"⟩, ⟨0x15, "Y"⟩, ⟨0x16, "U"⟩, ⟨0x17, "I"⟩, ⟨0x18, "O"⟩, ⟨0x19, "P"⟩, ⟨0x1a, "["⟩,
  ⟨0x1b, "]"⟩, ⟨0x1c, "enter"⟩, ⟨0x1d, "left control"⟩, ⟨0x1e, "A"⟩, ⟨0x1f, "S"⟩, ⟨0x20, "D"⟩,
  ⟨0x21, "F"⟩, ⟨0x22, "G"⟩, ⟨0x23, "H"⟩, ⟨0x24, "J"⟩, ⟨0x25, "K"⟩, ⟨0x26, "L"⟩, ⟨0x27, ";"⟩,
  ⟨0x28, "'"⟩, ⟨0x29, "`"⟩, ⟨0x2a, "left shift"⟩, ⟨0x2b, "\\"⟩, ⟨0x2c, "Z"⟩, ⟨0x2d, "X"⟩,
  ⟨0x2e, "C"⟩, ⟨0x2f, "V"⟩, ⟨0x30, "B"⟩, ⟨0x31, "N"⟩, ⟨0x32, "M"⟩, ⟨0x33, ","⟩, ⟨0x34, "."⟩,
  ⟨0x35, "/"⟩, ⟨0x36, "right shift"⟩, ⟨0x37, "(keypad) *"⟩, ⟨0x38, "left alt"⟩, ⟨0x39, "space"⟩,
  ⟨0x3a, "CapsLock"⟩, ⟨0x3b, "F1"⟩, ⟨0x3c, "F2"⟩, ⟨0x3d, "F3"⟩, ⟨0x3e, "F4"⟩, ⟨0x3f, "F5"⟩,
  ⟨0x40, "F6"⟩, ⟨0x41, "F7"⟩, ⟨0x42, "F8"⟩, ⟨0x43, "F9"⟩, ⟨0x44, "F10"⟩, ⟨0x45, "NumberLock"⟩,
  ⟨0x46, "ScrollLock"⟩, ⟨0x47, "(keypad) 7"⟩, ⟨0x48, "(keypad) 8"⟩, ⟨0x49, "(keypad) 9"⟩,
  ⟨0x4a, "(keypad) -"⟩, ⟨0x4b, "(keypad) 4"⟩, ⟨0x4c, "(keypad) 5"⟩, ⟨0x4d, "(keypad) 6"⟩,
  ⟨0x4e, "(keypad) +"⟩, ⟨0x4f, "(keypad) 1"⟩, ⟨0x50, "(keypad) 2"⟩, ⟨0x51, "(keypad) 3"⟩,
  ⟨0x52, "(keypad) 0"⟩, ⟨0x53, "(keypad) ."⟩, ⟨0x54, "F11"⟩, ⟨0x55, "F12"⟩,
  ⟨0x56, "(multimedia) previous track"⟩, ⟨0x57, "(multimedia) next track"⟩,
  ⟨0x58, "(keypad) enter"⟩, ⟨0x59, "right control"⟩, ⟨0x5a, "(multimedia) mute"⟩,
  ⟨0x5b, "(multimedia) calculator"⟩, ⟨0x5c, "(multimedia) play"⟩, ⟨0x5d, "(multimedia) stop"⟩,
  ⟨0x5e, "(multimedia) volume down"⟩, ⟨0x5f, "(multimedia) volume up"⟩,
  ⟨0x60, "(multimedia) WWW home"⟩, ⟨0x61, "(keypad) /"⟩, ⟨0x62, "right alt (or altGr)"⟩,
  ⟨0x63, "home"⟩, ⟨0x64, "cursor up"⟩, ⟨0x65, "page up"⟩, ⟨0x66, "cursor left"⟩,
  ⟨0x67, "cursor right"⟩, ⟨0x68, "end"⟩, ⟨0x69, "cursor down"⟩, ⟨0x6a, "page down"⟩,
  ⟨0x6b, "insert"⟩, ⟨0x6c, "delete"⟩, ⟨0x6d, "left GUI"⟩, ⟨0x6e, "right GUI"⟩, ⟨0x6f, "\"apps\""⟩,
  ⟨0x70, "(ACPI) power"⟩, ⟨0x71, "(ACPI) sleep"⟩, ⟨0x72, "(ACPI) wake"⟩,
  ⟨0x73, "(multimedia) WWW search"⟩, ⟨0x74, "(multimedia) WWW favorites"⟩,
  ⟨0x75, "(multimedia) WWW refresh"⟩, ⟨0x76, "(multimedia) WWW stop"⟩,
  ⟨0x77, "(multimedia) WWW forward"⟩, ⟨0x78, "(multimedia) WWW back"⟩,
  ⟨0x79, "(multimedia) my computer"⟩, ⟨0x7a, "(multimedia) email"⟩,
  ⟨0x7b, "(multimedia) media select"⟩, ⟨0x7c, "print screen"⟩, ⟨0x7d, "pause"⟩]

def keyeventTable : List KeyEvent := [
  ⟨0x0, 0x0, "invalid key", true⟩, ⟨0x1, 0x1, "escape", true⟩, ⟨0x2, 0x2, "1", true⟩,
  ⟨0x3, 0x3, "2", true⟩, ⟨0x4, 0x4, "3", true⟩, ⟨0x5, 0x5, "4", true⟩, ⟨0x6, 0x6, "5", true⟩,
  ⟨0x7, 0x7, "6", true⟩, ⟨0x8, 0x8, "7", true⟩, ⟨0x9, 0x9, "8", true⟩, ⟨0xa, 0xa, "9", true⟩,
  ⟨0xb, 0xb, "0", true⟩, ⟨0xc, 0xc, "-", true⟩, ⟨0xd, 0xd, "=", true⟩,
  ⟨0xe, 0xe, "backspace", true⟩, ⟨0xf, 0xf, "tab", true⟩, ⟨0x10, 0x10, "Q", true⟩,
  ⟨0x11, 0x11, "W", true⟩, ⟨0x12, 0x12, "E", true⟩, ⟨0x13, 0x13, "R", true⟩,
  ⟨0x14, 0x14, "T", true⟩, ⟨0x15, 0x15, "Y", true⟩, ⟨0x16, 0x16, "U", true⟩,
  ⟨0x17, 0x17, "I", true⟩, ⟨0x18, 0x18, "O", true⟩, ⟨0x19, 0x19, "P", true⟩,
  ⟨0x1a, 0x1a, "[", true⟩, ⟨0x1b, 0x1b, "]", true⟩, ⟨0x1c, 0x1c, "enter", true⟩,
  ⟨0x1d, 0x1d, "left control", true⟩, ⟨0x1e, 0x1e, "A", true⟩, ⟨0x1f, 0x1f, "S", true⟩,
  ⟨0x20, 0x20, "D", true⟩, ⟨0x21, 0x21, "F", true⟩, ⟨0x22, 0x22, "G", true⟩,
  ⟨0x23, 0x23, "H", true⟩, ⟨0x24, 0x24, "J", true⟩, ⟨0x25, 0x25, "K", true⟩,
  ⟨0x26, 0x26, "L", true⟩, ⟨0x27, 0x27, ";", true⟩, ⟨0x28, 0x28, "'", true⟩,
  ⟨0x29, 0x29, "`", true⟩, ⟨0x2a, 0x2a, "left shift", true⟩, ⟨0x2b, 0x2b, "\\", true⟩,
  ⟨0x2c, 0x2c, "Z", true⟩, ⟨0x2d, 0x2d, "X", true⟩, ⟨0x2e, 0x2e, "C", true⟩,
  ⟨0x2f, 0x2f, "V", true⟩, ⟨0x30, 0x30, "B", true⟩, ⟨0x31, 0x31, "N", true⟩,
  ⟨0x32, 0x32, "M", true⟩, ⟨0x33, 0x33, ",", true⟩, ⟨0x34, 0x34, ".", true⟩,
  ⟨0x35, 0x35, "/", true⟩, ⟨0x36, 0x36, "right shift", true⟩, ⟨0x37, 0x37, "(keypad) *", true⟩,
  ⟨0x38, 0x38, "left alt", true⟩, ⟨0x39, 0x39, "space", true⟩, ⟨0x3a, 0x3a, "CapsLock", true⟩,
  ⟨0x3b, 0x3b, "F1", true⟩, ⟨0x3c, 0x3c, "F2", true⟩, ⟨0x3d, 0x3d, "F3", true⟩,
  ⟨0x3e, 0x3e, "F4", true⟩, ⟨0x3f, 0x3f, "F5", true⟩, ⟨0x40, 0x40, "F6", true⟩,
  ⟨0x41, 0x41, "F7", true⟩, ⟨0x42, 0x42, "F8", true⟩, ⟨0x43, 0x43, "F9", true⟩,
  ⟨0x44, 0x44, "F10", true⟩, ⟨0x45, 0x45, "NumberLock", true⟩, ⟨0x46, 0x46, "ScrollLock", true⟩,
  ⟨0x47, 0x47, "(keypad) 7", true⟩, ⟨0x48, 0x48, "(keypad) 8", true⟩,
  ⟨0x49, 0x49, "(keypad) 9", true⟩, ⟨0x4a, 0x4a, "(keypad) -", true⟩,
  ⟨0x4b, 0x4b, "(keypad) 4", true⟩, ⟨0x4c, 0x4c, "(keypad) 5", true⟩,
  ⟨0x4d, 0x4d, "(keypad) 6", true⟩, ⟨0x4e, 0x4e, "(keypad) +", true⟩,
  ⟨0x4f, 0x4f, "(keypad) 1", true⟩, ⟨0x50, 0x50, "(keypad) 2", true⟩,
  ⟨0x51, 0x51, "(keypad) 3", true⟩, ⟨0x52, 0x52, "(keypad) 0", true⟩,
  ⟨0x53, 0x53, "(keypad) .", true⟩, ⟨0x54, 0x0, "invalid key", true⟩,
  ⟨0x55, 0x0, "invalid key", true⟩, ⟨0x56, 0x0, "invalid key", true⟩, ⟨0x57, 0x54, "F11", true⟩,
  ⟨0x58, 0x55, "F12", true⟩, ⟨0x59, 0x56, "(multimedia) previous track", true⟩,
  ⟨0x5a, 0x57, "(multimedia) next track", true⟩, ⟨0x5b, 0x58, "(keypad) enter", true⟩,
  ⟨0x5c, 0x59, "right control", true⟩, ⟨0x5d, 0x5a, "(multimedia) mute", true⟩,
  ⟨0x5e, 0x5b, "(multimedia) calculator", true⟩, ⟨0x5f, 0x5c, "(multimedia) play", true⟩,
  ⟨0x60, 0x5d, "(multimedia) stop", true⟩, ⟨0x61, 0x5e, "(multimedia) volume down", true⟩,
  ⟨0x62, 0x5f, "(multimedia) volume up", true⟩, ⟨0x63, 0x60, "(multimedia) WWW home", true⟩,
  ⟨0x64, 0x61, "(keypad) /", true⟩, ⟨0x65, 0x62, "right alt (or altGr)", true⟩,
  ⟨0x66, 0x63, "home", true⟩, ⟨0x67, 0x64, "cursor up", true⟩, ⟨0x68, 0x65, "page up", true⟩,
  ⟨0x69, 0x66, "cursor left", true⟩, ⟨0x6a, 0x67, "cursor right", true⟩, ⟨0x6b, 0x68, "end", true⟩,
  ⟨0x6c, 0x69, "cursor down", true⟩, ⟨0x6d, 0x6a, "page down", true⟩, ⟨0x6e, 0x6b, "insert", true⟩,
  ⟨0x6f, 0x6c, "delete", true⟩, ⟨0x70, 0x6d, "left GUI", true⟩, ⟨0x71, 0x6e, "right GUI", true⟩,
  ⟨0x72, 0x6f, "\"apps\"", true⟩, ⟨0x73, 0x70, "(ACPI) power", true⟩,
  ⟨0x74, 0x71, "(ACPI) sleep", true⟩, ⟨0x75, 0x72, "(ACPI) wake", true⟩,
  ⟨0x76, 0x73, "(multimedia) WWW search", true⟩, ⟨0x77, 0x74, "(multimedia) WWW favorites", true⟩,
  ⟨0x78, 0x75, "(multimedia) WWW refresh", true⟩, ⟨0x79, 0x76, "(multimedia) WWW stop", true⟩,
  ⟨0x7a, 0x77, "(multimedia) WWW forward", true⟩, ⟨0x7b, 0x78, "(multimedia) WWW back", true⟩,
  ⟨0x7c, 0x79, "(multimedia) my computer", true⟩, ⟨0x7d, 0x7a, "(multimedia) email", true⟩,
  ⟨0x7e, 0x7b, "(multimedia) media select", true⟩,
  ⟨0x7f, 0x56, "(multimedia) previous track", false⟩,
  ⟨0x80, 0x57, "(multimedia) next track", false⟩, ⟨0x81, 0x1, "escape", false⟩,
  ⟨0x82, 0x2, "1", false⟩, ⟨0x83, 0x3, "2", false⟩, ⟨0x84, 0x4, "3", false⟩,
  ⟨0x85, 0x5, "4", false⟩, ⟨0x86, 0x6, "5", false⟩, ⟨0x87, 0x7, "6", false⟩,
  ⟨0x88, 0x8, "7", false⟩, ⟨0x89, 0x9, "8", false⟩, ⟨0x8a, 0xa, "9", false⟩,
  ⟨0x8b, 0xb, "0", false⟩, ⟨0x8c, 0xc, "-", false⟩, ⟨0x8d, 0xd, "=", false⟩,
  ⟨0x8e, 0xe, "backspace", false⟩, ⟨0x8f, 0xf, "tab", false⟩, ⟨0x90, 0x10, "Q", false⟩,
  ⟨0x91, 0x11, "W", false⟩, ⟨0x92, 0x12, "E", false⟩, ⟨0x93, 0x13, "R", false⟩,
  ⟨0x94, 0x14, "T", false⟩, ⟨0x95, 0x15, "Y", false⟩, ⟨0x96, 0x16, "U", false⟩,
  ⟨0x97, 0x17, "I", false⟩, ⟨0x98, 0x18, "O", false⟩, ⟨0x99, 0x19, "P", false⟩,
  ⟨0x9a, 0x1a, "[", false⟩, ⟨0x9b, 0x1b, "]", false⟩, ⟨0x9c, 0x1c, "enter", false⟩,
  ⟨0x9d, 0x1d, "left control", false⟩, ⟨0x9e, 0x1e, "A", false⟩, ⟨0x9f, 0x1f, "S", false⟩,
  ⟨0xa0, 0x20, "D", false⟩, ⟨0xa1, 0x21, "F", false⟩, ⟨0xa2, 0x22, "G", false⟩,
  ⟨0xa3, 0x23, "H", false⟩, ⟨0xa4, 0x24, "J", false⟩, ⟨0xa5, 0x25, "K", false⟩,
  ⟨0xa6, 0x26, "L", false⟩, ⟨0xa7, 0x27, ";", false⟩, ⟨0xa8, 0x28, "'", false⟩,
  ⟨0xa9, 0x29, "`", false⟩, ⟨0xaa, 0x2a, "left shift", false⟩, ⟨0xab, 0x2b, "\\", false⟩,
  ⟨0xac, 0x2c, "Z", false⟩, ⟨0xad, 0x2d, "X", false⟩, ⟨0xae, 0x2e, "C", false⟩,
  ⟨0xaf, 0x2f, "V", false⟩, ⟨0xb0, 0x30, "B", false⟩, ⟨0xb1, 0x31, "N", false⟩,
  ⟨0xb2, 0x32, "M", false⟩, ⟨0xb3, 0x33, ",", false⟩, ⟨0xb4, 0x34, ".", false⟩,
  ⟨0xb5, 0x35, "/", false⟩, ⟨0xb6, 0x36, "right shift", false⟩, ⟨0xb7, 0x37, "(keypad) *", false⟩,
  ⟨0xb8, 0x38, "left alt", false⟩, ⟨0xb9, 0x39, "space", false⟩, ⟨0xba, 0x3a, "CapsLock", false⟩,
  ⟨0xbb, 0x3b, "F1", false⟩, ⟨0xbc, 0x3c, "F2", false⟩, ⟨0xbd, 0x3d, "F3", false⟩,
  ⟨0xbe, 0x3e, "F4", false⟩, ⟨0xbf, 0x3f, "F5", false⟩, ⟨0xc0, 0x40, "F6", false⟩,
  ⟨0xc1, 0x41, "F7", false⟩, ⟨0xc2, 0x42, "F8", false⟩, ⟨0xc3, 0x43, "F9", false⟩,
  ⟨0xc4, 0x44, "F10", false⟩, ⟨0xc5, 0x45, "NumberLock", false⟩, ⟨0xc6, 0x46, "ScrollLock", false⟩,
  ⟨0xc7, 0x47, "(keypad) 7", false⟩, ⟨0xc8, 0x48, "(keypad) 8", false⟩,
  ⟨0xc9, 0x49, "(keypad) 9", false⟩, ⟨0xca, 0x4a, "(keypad) -", false⟩,
  ⟨0xcb, 0x4b, "(keypad) 4", false⟩, ⟨0xcc, 0x4c, "(keypad) 5", false⟩,
  ⟨0xcd, 0x4d, "(keypad) 6", false⟩, ⟨0xce, 0x4e, "(keypad) +", false⟩,
  ⟨0xcf, 0x4f, "(keypad) 1", false⟩, ⟨0xd0, 0x50, "(keypad) 2", false⟩,
  ⟨0xd1, 0x51, "(keypad) 3", false⟩, ⟨0xd2, 0x52, "(keypad) 0", false⟩,
  ⟨0xd3, 0x53, "(keypad) .", false⟩, ⟨0xd4, 0x0, "invalid key", true⟩,
  ⟨0xd5, 0x0, "invalid key", true⟩, ⟨0xd6, 0x0, "invalid key", true⟩, ⟨0xd7, 0x54, "F11", false⟩,
  ⟨0xd8, 0x55, "F12", false⟩, ⟨0xd9, 0x58, "(keypad) enter", false⟩,
  ⟨0xda, 0x59, "right control", false⟩, ⟨0xdb, 0x5a, "(multimedia) mute", false⟩,
  ⟨0xdc, 0x5b, "(multimedia) calculator", false⟩, ⟨0xdd, 0x5c, "(multimedia) play", false⟩,
  ⟨0xde, 0x5d, "(multimedia) stop", false⟩, ⟨0xdf, 0x5e, "(multimedia) volume down", false⟩,
  ⟨0xe0, 0x5f, "(multimedia) volume up", false⟩, ⟨0xe1, 0x60, "(multimedia) WWW home", false⟩,
  ⟨0xe2, 0x61, "(keypad) /", false⟩, ⟨0xe3, 0x62, "right alt (or altGr)", false⟩,
  ⟨0xe4, 0x63, "home", false⟩, ⟨0xe5, 0x64, "cursor up", false⟩, ⟨0xe6, 0x65, "page up", false⟩,
  ⟨0xe7, 0x66, "cursor left", false⟩, ⟨0xe8, 0x67, "cursor right", false⟩,
  ⟨0xe9, 0x68, "end", false⟩, ⟨0xea, 0x69, "cursor down", false⟩, ⟨0xeb, 0x6a, "page down", false⟩,
  ⟨0xec, 0x6b, "insert", false⟩, ⟨0xed, 0x6c, "delete", false⟩, ⟨0xee, 0x6d, "left GUI", false⟩,
  ⟨0xef, 0x6e, "right GUI", false⟩, ⟨0xf0, 0x6f, "\"apps\"", false⟩,
  ⟨0xf1, 0x70, "(ACPI) power", false⟩, ⟨0xf2, 0x71, "(ACPI) sleep", false⟩,
  ⟨0xf3, 0x72, "(ACPI) wake", false⟩, ⟨0xf4, 0x73, "(multimedia) WWW search", false⟩,
  ⟨0xf5, 0x74, "(multimedia) WWW favorites", false⟩,
  ⟨0xf6, 0x75, "(multimedia) WWW refresh", false⟩, ⟨0xf7, 0x76, "(multimedia) WWW stop", false⟩,
  ⟨0xf8, 0x77, "(multimedia) WWW forward", false⟩, ⟨0xf9, 0x78, "(multimedia) WWW back", false⟩,
  ⟨0xfa, 0x79, "(multimedia) my computer", false⟩, ⟨0xfb, 0x7a, "(multimedia) email", false⟩,
  ⟨0xfc, 0x7b, "(multimedia) media select", false⟩, ⟨0xfd, 0x7c, "print screen", true⟩,
  ⟨0xfe, 0x7c, "print screen", false⟩, ⟨0xff, 0x7d, "pause", true⟩]

def sortedScanCodes : List ScanCode := [
  ⟨[0x00], "invalid key", true⟩, ⟨[0x01], "escape", true⟩, ⟨[0x02], "1", true⟩,
  ⟨[0x03], "2", true⟩, ⟨[0x04], "3", true⟩, ⟨[0x05], "4", true⟩, ⟨[0x06], "5", true⟩,
  ⟨[0x07], "6", true⟩, ⟨[0x08], "7", true⟩, ⟨[0x09], "8", true⟩, ⟨[0x0a], "9", true⟩,
  ⟨[0x0b], "0", true⟩, ⟨[0x0c], "-", true⟩, ⟨[0x0d], "=", true⟩, ⟨[0x0e], "backspace", true⟩,
  ⟨[0x0f], "tab", true⟩, ⟨[0x10], "Q", true⟩, ⟨[0x11], "W", true⟩, ⟨[0x12], "E", true⟩,
  ⟨[0x13], "R", true⟩, ⟨[0x14], "T", true⟩, ⟨[0x15], "Y", true⟩, ⟨[0x16], "U", true⟩,
  ⟨[0x17], "I", true⟩, ⟨[0x18], "O", true⟩, ⟨[0x19], "P", true⟩, ⟨[0x1a], "[", true⟩,
  ⟨[0x1b], "]", true⟩, ⟨[0x1c], "enter", true⟩, ⟨[0x1d], "left control", true⟩,
  ⟨[0x1e], "A", true⟩, ⟨[0x1f], "S", true⟩, ⟨[0x20], "D", true⟩, ⟨[0x21], "F", true⟩,
  ⟨[0x22], "G", true⟩, ⟨[0x23], "H", true⟩, ⟨[0x24], "J", true⟩, ⟨[0x25], "K", true⟩,
  ⟨[0x26], "L", true⟩, ⟨[0x27], ";", true⟩, ⟨[0x28], "'", true⟩, ⟨[0x29], "`", true⟩,
  ⟨[0x2a], "left shift", true⟩, ⟨[0x2b], "\\", true⟩, ⟨[0x2c], "Z", true⟩, ⟨[0x2d], "X", true⟩,
  ⟨[0x2e], "C", true⟩, ⟨[0x2f], "V", true⟩, ⟨[0x30], "B", true⟩, ⟨[0x31], "N", true⟩,
  ⟨[0x32], "M", true⟩, ⟨[0x33], ",", true⟩, ⟨[0x34], ".", true⟩, ⟨[0x35], "/", true⟩,
  ⟨[0x36], "right shift", true⟩, ⟨[0x37], "(keypad) *", true⟩, ⟨[0x38], "left alt", true⟩,
  ⟨[0x39], "space", true⟩, ⟨[0x3a], "CapsLock", true⟩, ⟨[0x3b], "F1", true⟩, ⟨[0x3c], "F2", true⟩,
  ⟨[0x3d], "F3", true⟩, ⟨[0x3e], "F4", true⟩, ⟨[0x3f], "F5", true⟩, ⟨[0x40], "F6", true⟩,
  ⟨[0x41], "F7", true⟩, ⟨[0x42], "F8", true⟩, ⟨[0x43], "F9", true⟩, ⟨[0x44], "F10", true⟩,
  ⟨[0x45], "NumberLock", true⟩, ⟨[0x46], "ScrollLock", true⟩, ⟨[0x47], "(keypad) 7", true⟩,
  ⟨[0x48], "(keypad) 8", true⟩, ⟨[0x49], "(keypad) 9", true⟩, ⟨[0x4a], "(keypad) -", true⟩,
  ⟨[0x4b], "(keypad) 4", true⟩, ⟨[0x4c], "(keypad) 5", true⟩, ⟨[0x4d], "(keypad) 6", true⟩,
  ⟨[0x4e], "(keypad) +", true⟩, ⟨[0x4f], "(keypad) 1", true⟩, ⟨[0x50], "(keypad) 2", true⟩,
  ⟨[0x51], "(keypad) 3", true⟩, ⟨[0x52], "(keypad) 0", true⟩, ⟨[0x53], "(keypad) .", true⟩,
  ⟨[0x00], "invalid key", true⟩, ⟨[0x00], "invalid key", true⟩, ⟨[0x00], "invalid key", true⟩,
  ⟨[0x57], "F11", true⟩, ⟨[0x58], "F12", true⟩,
  ⟨[0xe0, 0x10], "(multimedia) previous track", true⟩,
  ⟨[0xe0, 0x19], "(multimedia) next track", true⟩, ⟨[0xe0, 0x1c], "(keypad) enter", true⟩,
  ⟨[0xe0, 0x1d], "right control", true⟩, ⟨[0xe0, 0x20], "(multimedia) mute", true⟩,
  ⟨[0xe0, 0x21], "(multimedia) calculator", true⟩, ⟨[0xe0, 0x22], "(multimedia) play", true⟩,
  ⟨[0xe0, 0x24], "(multimedia) stop", true⟩, ⟨[0xe0, 0x2e], "(multimedia) volume down", true⟩,
  ⟨[0xe0, 0x30], "(multimedia) volume up", true⟩, ⟨[0xe0, 0x32], "(multimedia) WWW home", true⟩,
  ⟨[0xe0, 0x35], "(keypad) /", true⟩, ⟨[0xe0, 0x38], "right alt (or altGr)", true⟩,
  ⟨[0xe0, 0x47], "home", true⟩, ⟨[0xe0, 0x48], "cursor up", true⟩, ⟨[0xe0, 0x49], "page up", true⟩,
  ⟨[0xe0, 0x4b], "cursor left", true⟩, ⟨[0xe0, 0x4d], "cursor right", true⟩,
  ⟨[0xe0, 0x4f], "end", true⟩, ⟨[0xe0, 0x50], "cursor down", true⟩,
  ⟨[0xe0, 0x51], "page down", true⟩, ⟨[0xe0, 0x52], "insert", true⟩,
  ⟨[0xe0, 0x53], "delete", true⟩, ⟨[0xe0, 0x5b], "left GUI", true⟩,
  ⟨[0xe0, 0x5c], "right GUI", true⟩, ⟨[0xe0, 0x5d], "\"apps\"", true⟩,
  ⟨[0xe0, 0x5e], "(ACPI) power", true⟩, ⟨[0xe0, 0x5f], "(ACPI) sleep", true⟩,
  ⟨[0xe0, 0x63], "(ACPI) wake", true⟩, ⟨[0xe0, 0x65], "(multimedia) WWW search", true⟩,
  ⟨[0xe0, 0x66], "(multimedia) WWW favorites", true⟩,
  ⟨[0xe0, 0x67], "(multimedia) WWW refresh", true⟩, ⟨[0xe0, 0x68], "(multimedia) WWW stop", true⟩,
  ⟨[0xe0, 0x69], "(multimedia) WWW forward", true⟩, ⟨[0xe0, 0x6a], "(multimedia) WWW back", true⟩,
  ⟨[0xe0, 0x6b], "(multimedia) my computer", true⟩, ⟨[0xe0, 0x6c], "(multimedia) email", true⟩,
  ⟨[0xe0, 0x6d], "(multimedia) media select", true⟩,
  ⟨[0xe0, 0x90], "(multimedia) previous track", false⟩,
  ⟨[0xe0, 0x99], "(multimedia) next track", false⟩, ⟨[0x81], "escape", false⟩,
  ⟨[0x82], "1", false⟩, ⟨[0x83], "2", false⟩, ⟨[0x84], "3", false⟩, ⟨[0x85], "4", false⟩,
  ⟨[0x86], "5", false⟩, ⟨[0x87], "6", false⟩, ⟨[0x88], "7", false⟩, ⟨[0x89], "8", false⟩,
  ⟨[0x8a], "9", false⟩, ⟨[0x8b], "0", false⟩, ⟨[0x8c], "-", false⟩, ⟨[0x8d], "=", false⟩,
  ⟨[0x8e], "backspace", false⟩, ⟨[0x8f], "tab", false⟩, ⟨[0x90], "Q", false⟩, ⟨[0x91], "W", false⟩,
  ⟨[0x92], "E", false⟩, ⟨[0x93], "R", false⟩, ⟨[0x94], "T", false⟩, ⟨[0x95], "Y", false⟩,
  ⟨[0x96], "U", false⟩, ⟨[0x97], "I", false⟩, ⟨[0x98], "O", false⟩, ⟨[0x99], "P", false⟩,
  ⟨[0x9a], "[", false⟩, ⟨[0x9b], "]", false⟩, ⟨[0x9c], "enter", false⟩,
  ⟨[0x9d], "left control", false⟩, ⟨[0x9e], "A", false⟩, ⟨[0x9f], "S", false⟩,
  ⟨[0xa0], "D", false⟩, ⟨[0xa1], "F", false⟩, ⟨[0xa2], "G", false⟩, ⟨[0xa3], "H", false⟩,
  ⟨[0xa4], "J", false⟩, ⟨[0xa5], "K", false⟩, ⟨[0xa6], "L", false⟩, ⟨[0xa7], ";", false⟩,
  ⟨[0xa8], "'", false⟩, ⟨[0xa9], "`", false⟩, ⟨[0xaa], "left shift", false⟩, ⟨[0xab], "\\", false⟩,
  ⟨[0xac], "Z", false⟩, ⟨[0xad], "X", false⟩, ⟨[0xae], "C", false⟩, ⟨[0xaf], "V", false⟩,
  ⟨[0xb0], "B", false⟩, ⟨[0xb1], "N", false⟩, ⟨[0xb2], "M", false⟩, ⟨[0xb3], ",", false⟩,
  ⟨[0xb4], ".", false⟩, ⟨[0xb5], "/", false⟩, ⟨[0xb6], "right shift", false⟩,
  ⟨[0xb7], "(keypad) *", false⟩, ⟨[0xb8], "left alt", false⟩, ⟨[0xb9], "space", false⟩,
  ⟨[0xba], "CapsLock", false⟩, ⟨[0xbb], "F1", false⟩, ⟨[0xbc], "F2", false⟩, ⟨[0xbd], "F3", false⟩,
  ⟨[0xbe], "F4", false⟩, ⟨[0xbf], "F5", false⟩, ⟨[0xc0], "F6", false⟩, ⟨[0xc1], "F7", false⟩,
  ⟨[0xc2], "F8", false⟩, ⟨[0xc3], "F9", false⟩, ⟨[0xc4], "F10", false⟩,
  ⟨[0xc5], "NumberLock", false⟩, ⟨[0xc6], "ScrollLock", false⟩, ⟨[0xc7], "(keypad) 7", false⟩,
  ⟨[0xc8], "(keypad) 8", false⟩, ⟨[0xc9], "(keypad) 9", false⟩, ⟨[0xca], "(keypad) -", false⟩,
  ⟨[0xcb], "(keypad) 4", false⟩, ⟨[0xcc], "(keypad) 5", false⟩, ⟨[0xcd], "(keypad) 6", false⟩,
  ⟨[0xce], "(keypad) +", false⟩, ⟨[0xcf], "(keypad) 1", false⟩, ⟨[0xd0], "(keypad) 2", false⟩,
  ⟨[0xd1], "(keypad) 3", false⟩, ⟨[0xd2], "(keypad) 0", false⟩, ⟨[0xd3], "(keypad) .", false⟩,
  ⟨[0x00], "invalid key", true⟩, ⟨[0x00], "invalid key", true⟩, ⟨[0x00], "invalid key", true⟩,
  ⟨[0xd7], "F11", false⟩, ⟨[0xd8], "F12", false⟩, ⟨[0xe0, 0x9c], "(keypad) enter", false⟩,
  ⟨[0xe0, 0x9d], "right control", false⟩, ⟨[0xe0, 0xa0], "(multimedia) mute", false⟩,
  ⟨[0xe0, 0xa1], "(multimedia) calculator", false⟩, ⟨[0xe0, 0xa2], "(multimedia) play", false⟩,
  ⟨[0xe0, 0xa4], "(multimedia) stop", false⟩, ⟨[0xe0, 0xae], "(multimedia) volume down", false⟩,
  ⟨[0xe0, 0xb0], "(multimedia) volume up", false⟩, ⟨[0xe0, 0xb2], "(multimedia) WWW home", false⟩,
  ⟨[0xe0, 0xb5], "(keypad) /", false⟩, ⟨[0xe0, 0xb8], "right alt (or altGr)", false⟩,
  ⟨[0xe0, 0xc7], "home", false⟩, ⟨[0xe0, 0xc8], "cursor up", false⟩,
  ⟨[0xe0, 0xc9], "page up", false⟩, ⟨[0xe0, 0xcb], "cursor left", false⟩,
  ⟨[0xe0, 0xcd], "cursor right", false⟩, ⟨[0xe0, 0xcf], "end", false⟩,
  ⟨[0xe0, 0xd0], "cursor down", false⟩, ⟨[0xe0, 0xd1], "page down", false⟩,
  ⟨[0xe0, 0xd2], "insert", false⟩, ⟨[0xe0, 0xd3], "delete", false⟩,
  ⟨[0xe0, 0xdb], "left GUI", false⟩, ⟨[0xe0, 0xdc], "right GUI", false⟩,
  ⟨[0xe0, 0xdd], "\"apps\"", false⟩, ⟨[0xe0, 0xde], "(ACPI) power", false⟩,
  ⟨[0xe0, 0xdf], "(ACPI) sleep", false⟩, ⟨[0xe0, 0xe3], "(ACPI) wake", false⟩,
  ⟨[0xe0, 0xe5], "(multimedia) WWW search", false⟩,
  ⟨[0xe0, 0xe6], "(multimedia) WWW favorites", false⟩,
  ⟨[0xe0, 0xe7], "(multimedia) WWW refresh", false⟩,
  ⟨[0xe0, 0xe8], "(multimedia) WWW stop", false⟩,
  ⟨[0xe0, 0xe9], "(multimedia) WWW forward", false⟩,
  ⟨[0xe0, 0xea], "(multimedia) WWW back", false⟩,
  ⟨[0xe0, 0xeb], "(multimedia) my computer", false⟩, ⟨[0xe0, 0xec], "(multimedia) email", false⟩,
  ⟨[0xe0, 0xed], "(multimedia) media select", false⟩,
  ⟨[0xe0, 0x2a, 0xe0, 0x37], "print screen", true⟩,
  ⟨[0xe0, 0xb7, 0xe0, 0xaa], "print screen", false⟩,
  ⟨[0xe1, 0x1d, 0x45, 0xe1, 0x9d, 0xc5], "pause", true⟩]

/-- the scan codes of the document, without the filler lines -/
def documented : List ScanCode := sortedScanCodes.filter fun c => c.name ≠ "invalid key"

end StarOS
