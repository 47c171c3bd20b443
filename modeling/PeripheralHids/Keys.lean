import Mathlib.Data.List.Basic

namespace peripheral_hids

abbrev uint8_t := BitVec 8

/-- The code of a scan code without a key, and of a free slot in a report. -/
def KEY_UNKNOWN : uint8_t := 0x00

def KEY_MOD_LCTRL : uint8_t := 0x01
def KEY_MOD_LSHIFT : uint8_t := 0x02
def KEY_MOD_LALT : uint8_t := 0x04
def KEY_MOD_LMETA : uint8_t := 0x08
def KEY_MOD_RCTRL : uint8_t := 0x10
def KEY_MOD_RSHIFT : uint8_t := 0x20
def KEY_MOD_RALT : uint8_t := 0x40
def KEY_MOD_RMETA : uint8_t := 0x80

def KEY_A : uint8_t := 0x04
def KEY_B : uint8_t := 0x05
def KEY_C : uint8_t := 0x06
def KEY_D : uint8_t := 0x07
def KEY_E : uint8_t := 0x08
def KEY_F : uint8_t := 0x09
def KEY_G : uint8_t := 0x0a
def KEY_H : uint8_t := 0x0b
def KEY_I : uint8_t := 0x0c
def KEY_J : uint8_t := 0x0d
def KEY_K : uint8_t := 0x0e
def KEY_L : uint8_t := 0x0f
def KEY_M : uint8_t := 0x10
def KEY_N : uint8_t := 0x11
def KEY_O : uint8_t := 0x12
def KEY_P : uint8_t := 0x13
def KEY_Q : uint8_t := 0x14
def KEY_R : uint8_t := 0x15
def KEY_S : uint8_t := 0x16
def KEY_T : uint8_t := 0x17
def KEY_U : uint8_t := 0x18
def KEY_V : uint8_t := 0x19
def KEY_W : uint8_t := 0x1a
def KEY_X : uint8_t := 0x1b
def KEY_Y : uint8_t := 0x1c
def KEY_Z : uint8_t := 0x1d
def KEY_1 : uint8_t := 0x1e
def KEY_2 : uint8_t := 0x1f
def KEY_3 : uint8_t := 0x20
def KEY_4 : uint8_t := 0x21
def KEY_5 : uint8_t := 0x22
def KEY_6 : uint8_t := 0x23
def KEY_7 : uint8_t := 0x24
def KEY_8 : uint8_t := 0x25
def KEY_9 : uint8_t := 0x26
def KEY_0 : uint8_t := 0x27
def KEY_ENTER : uint8_t := 0x28
def KEY_ESC : uint8_t := 0x29
def KEY_BACKSPACE : uint8_t := 0x2a
def KEY_TAB : uint8_t := 0x2b
def KEY_SPACE : uint8_t := 0x2c
def KEY_MINUS : uint8_t := 0x2d
def KEY_EQUAL : uint8_t := 0x2e
def KEY_LEFTBRACE : uint8_t := 0x2f
def KEY_RIGHTBRACE : uint8_t := 0x30
def KEY_BACKSLASH : uint8_t := 0x31
def KEY_SEMICOLON : uint8_t := 0x33
def KEY_APOSTROPHE : uint8_t := 0x34
def KEY_GRAVE : uint8_t := 0x35
def KEY_COMMA : uint8_t := 0x36
def KEY_DOT : uint8_t := 0x37
def KEY_SLASH : uint8_t := 0x38
def KEY_CAPSLOCK : uint8_t := 0x39
def KEY_F1 : uint8_t := 0x3a
def KEY_F2 : uint8_t := 0x3b
def KEY_F3 : uint8_t := 0x3c
def KEY_F4 : uint8_t := 0x3d
def KEY_F5 : uint8_t := 0x3e
def KEY_F6 : uint8_t := 0x3f
def KEY_F7 : uint8_t := 0x40
def KEY_F8 : uint8_t := 0x41
def KEY_F9 : uint8_t := 0x42
def KEY_F10 : uint8_t := 0x43
def KEY_F11 : uint8_t := 0x44
def KEY_F12 : uint8_t := 0x45
def KEY_SYSRQ : uint8_t := 0x46
def KEY_SCROLLLOCK : uint8_t := 0x47
def KEY_PAUSE : uint8_t := 0x48
def KEY_INSERT : uint8_t := 0x49
def KEY_HOME : uint8_t := 0x4a
def KEY_PAGEUP : uint8_t := 0x4b
def KEY_DELETE : uint8_t := 0x4c
def KEY_END : uint8_t := 0x4d
def KEY_PAGEDOWN : uint8_t := 0x4e
def KEY_RIGHT : uint8_t := 0x4f
def KEY_LEFT : uint8_t := 0x50
def KEY_DOWN : uint8_t := 0x51
def KEY_UP : uint8_t := 0x52
def KEY_NUMLOCK : uint8_t := 0x53
def KEY_KPSLASH : uint8_t := 0x54
def KEY_KPASTERISK : uint8_t := 0x55
def KEY_KPMINUS : uint8_t := 0x56
def KEY_KPPLUS : uint8_t := 0x57
def KEY_KP1 : uint8_t := 0x59
def KEY_KP2 : uint8_t := 0x5a
def KEY_KP3 : uint8_t := 0x5b
def KEY_KP4 : uint8_t := 0x5c
def KEY_KP5 : uint8_t := 0x5d
def KEY_KP6 : uint8_t := 0x5e
def KEY_KP7 : uint8_t := 0x5f
def KEY_KP8 : uint8_t := 0x60
def KEY_KP9 : uint8_t := 0x61
def KEY_KP0 : uint8_t := 0x62
def KEY_KPDOT : uint8_t := 0x63
def KEY_PROPS : uint8_t := 0x76
def KEY_LEFTMETA : uint8_t := 0xe3
def KEY_RIGHTCTRL : uint8_t := 0xe4
def KEY_RIGHTALT : uint8_t := 0xe6
def KEY_RIGHTMETA : uint8_t := 0xe7

/-- `ps2_scan_code_to_usb_hid_key`: the usage of each scan code without prefix,
and the mask of the four modifiers among them, eight codes to a row. The last
designated initialiser is that of `0xfe`, so the array ends there. -/
def ps2_scan_code_to_usb_hid_key : List uint8_t := [
  KEY_UNKNOWN, KEY_F9, KEY_UNKNOWN, KEY_F5, KEY_F3, KEY_F1, KEY_F2, KEY_F12,
  KEY_UNKNOWN, KEY_F10, KEY_F8, KEY_F6, KEY_F4, KEY_TAB, KEY_GRAVE, KEY_UNKNOWN,
  KEY_UNKNOWN, KEY_MOD_LALT, KEY_MOD_LSHIFT, KEY_UNKNOWN, KEY_MOD_LCTRL, KEY_Q, KEY_1, KEY_UNKNOWN,
  KEY_UNKNOWN, KEY_UNKNOWN, KEY_Z, KEY_S, KEY_A, KEY_W, KEY_2, KEY_UNKNOWN,
  KEY_UNKNOWN, KEY_C, KEY_X, KEY_D, KEY_E, KEY_4, KEY_3, KEY_UNKNOWN,
  KEY_UNKNOWN, KEY_SPACE, KEY_V, KEY_F, KEY_T, KEY_R, KEY_5, KEY_UNKNOWN,
  KEY_UNKNOWN, KEY_N, KEY_B, KEY_H, KEY_G, KEY_Y, KEY_6, KEY_UNKNOWN,
  KEY_UNKNOWN, KEY_UNKNOWN, KEY_M, KEY_J, KEY_U, KEY_7, KEY_8, KEY_UNKNOWN,
  KEY_UNKNOWN, KEY_COMMA, KEY_K, KEY_I, KEY_O, KEY_0, KEY_9, KEY_UNKNOWN,
  KEY_UNKNOWN, KEY_DOT, KEY_SLASH, KEY_L, KEY_SEMICOLON, KEY_P, KEY_MINUS, KEY_UNKNOWN,
  KEY_UNKNOWN, KEY_UNKNOWN, KEY_APOSTROPHE, KEY_UNKNOWN, KEY_LEFTBRACE, KEY_EQUAL, KEY_UNKNOWN, KEY_UNKNOWN,
  KEY_CAPSLOCK, KEY_MOD_RSHIFT, KEY_ENTER, KEY_RIGHTBRACE, KEY_UNKNOWN, KEY_BACKSLASH, KEY_UNKNOWN, KEY_UNKNOWN,
  KEY_UNKNOWN, KEY_UNKNOWN, KEY_UNKNOWN, KEY_UNKNOWN, KEY_UNKNOWN, KEY_UNKNOWN, KEY_BACKSPACE, KEY_UNKNOWN,
  KEY_UNKNOWN, KEY_KP1, KEY_UNKNOWN, KEY_KP4, KEY_KP7, KEY_UNKNOWN, KEY_UNKNOWN, KEY_UNKNOWN,
  KEY_KP0, KEY_KPDOT, KEY_KP2, KEY_KP5, KEY_KP6, KEY_KP8, KEY_ESC, KEY_NUMLOCK,
  KEY_F11, KEY_KPPLUS, KEY_KP3, KEY_KPMINUS, KEY_KPASTERISK, KEY_KP9, KEY_SCROLLLOCK, KEY_UNKNOWN,
  KEY_UNKNOWN, KEY_UNKNOWN, KEY_UNKNOWN, KEY_F7, KEY_UNKNOWN, KEY_UNKNOWN, KEY_UNKNOWN, KEY_UNKNOWN] ++
  List.replicate (0xff - 0x88) KEY_UNKNOWN

end peripheral_hids
