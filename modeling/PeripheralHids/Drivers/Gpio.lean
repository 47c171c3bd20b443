import Mathlib.Data.List.Basic

namespace peripheral_hids.gpio

abbrev gpio_flags_t := BitVec 32

def GPIO_ACTIVE_LOW : gpio_flags_t := 1 <<< 0
def GPIO_ACTIVE_HIGH : gpio_flags_t := 0 <<< 0
def GPIO_SINGLE_ENDED : gpio_flags_t := 1 <<< 1
def GPIO_LINE_OPEN_DRAIN : gpio_flags_t := 1 <<< 2
def GPIO_OPEN_DRAIN : gpio_flags_t := GPIO_SINGLE_ENDED ||| GPIO_LINE_OPEN_DRAIN
def GPIO_INPUT : gpio_flags_t := 1 <<< 8
def GPIO_OUTPUT : gpio_flags_t := 1 <<< 9
def GPIO_OUTPUT_INIT_LOW : gpio_flags_t := 1 <<< 10
def GPIO_OUTPUT_INIT_HIGH : gpio_flags_t := 1 <<< 11
def GPIO_OUTPUT_INIT_LOGICAL : gpio_flags_t := 1 <<< 12
def GPIO_OUTPUT_INACTIVE : gpio_flags_t :=
  GPIO_OUTPUT ||| GPIO_OUTPUT_INIT_LOW ||| GPIO_OUTPUT_INIT_LOGICAL
def GPIO_OUTPUT_ACTIVE : gpio_flags_t :=
  GPIO_OUTPUT ||| GPIO_OUTPUT_INIT_HIGH ||| GPIO_OUTPUT_INIT_LOGICAL

/-- The registers of one pin that decide what it drives and reads: direction,
whether the input buffer is connected, drive mode, output bit, and the driver's
record of an active-low configuration. -/
structure gpio_pin where
  output : Bool
  input : Bool
  open_drain : Bool
  out : Bool
  invert : Bool
  deriving DecidableEq, Repr

/-- A pin out of reset: not an output, its input buffer disconnected and its output
bit clear. -/
def gpio_pin.reset : gpio_pin where
  output := false
  input := false
  open_drain := false
  out := false
  invert := false

def has (flags mask : gpio_flags_t) : Bool :=
  flags &&& mask != 0

/-- `gpio_pin_configure` over the nRF driver's `gpio_nrfx_config`: a logical
initial level is turned over on an active-low pin, and the output bit is only
written when the flags ask for an initial level. -/
def gpio_pin_configure (pin : gpio_pin) (flags : gpio_flags_t) : gpio_pin :=
  let flags :=
    if has flags GPIO_OUTPUT_INIT_LOGICAL &&
        has flags (GPIO_OUTPUT_INIT_LOW ||| GPIO_OUTPUT_INIT_HIGH) &&
        has flags GPIO_ACTIVE_LOW then
      flags ^^^ (GPIO_OUTPUT_INIT_LOW ||| GPIO_OUTPUT_INIT_HIGH ||| GPIO_OUTPUT_INIT_LOGICAL)
    else flags
  { output := has flags GPIO_OUTPUT
    input := has flags GPIO_INPUT
    open_drain := flags &&& GPIO_OPEN_DRAIN == GPIO_OPEN_DRAIN
    out :=
      if has flags GPIO_OUTPUT then
        if has flags GPIO_OUTPUT_INIT_HIGH then true
        else if has flags GPIO_OUTPUT_INIT_LOW then false
        else pin.out
      else pin.out
    invert := has flags GPIO_ACTIVE_LOW }

/-- `gpio_pin_set`: any non-zero value is the active level. -/
def gpio_pin_set (pin : gpio_pin) (value : BitVec 32) : gpio_pin :=
  { pin with out := (value != 0) ^^ pin.invert }

/-- The level a pin leaves on a line with a pull-up: only an output with a
clear output bit holds it low. -/
def gpio_pin.level (pin : gpio_pin) : Bool :=
  !(pin.output && !pin.out)

/-- `gpio_pin_get`, with the level that the others leave on the line. A pin whose
input buffer is disconnected reads as low. -/
def gpio_pin_get (pin : gpio_pin) (others : Bool) : Bool :=
  (pin.input && (others && pin.level)) ^^ pin.invert

end peripheral_hids.gpio
