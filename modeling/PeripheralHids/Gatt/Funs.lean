import PeripheralHids.Hog.Service

open peripheral_hids.hog

namespace peripheral_hids.gatt

inductive bt_security_t where
  | BT_SECURITY_L0
  | BT_SECURITY_L1
  | BT_SECURITY_L2
  | BT_SECURITY_L3
  | BT_SECURITY_L4
  deriving DecidableEq, Repr

open bt_security_t

/-- The value of the enumerator, by which levels are compared. -/
def bt_security_t.level : bt_security_t → Nat
  | BT_SECURITY_L0 => 0
  | BT_SECURITY_L1 => 1
  | BT_SECURITY_L2 => 2
  | BT_SECURITY_L3 => 3
  | BT_SECURITY_L4 => 4

inductive bt_conn_state_t where
  | BT_CONN_CONNECTED
  | BT_CONN_DISCONNECT
  deriving DecidableEq, Repr

open bt_conn_state_t

/-- A link to the peer `dst`: the fields of `struct bt_conn` that decide what is
sent over it. -/
structure bt_conn (α : Type) where
  dst : α
  encrypt : Bool
  sec_level : bt_security_t
  required_sec_level : bt_security_t
  state : bt_conn_state_t
  deriving DecidableEq, Repr

/-- The properties of the keys that a link is encrypted with. -/
structure bt_keys where
  authenticated : Bool
  sc : Bool
  enc_size : Nat
  deriving DecidableEq, Repr

def BT_SMP_MAX_ENC_KEY_SIZE : Nat := 16

section

variable {α : Type}

/-- `bt_conn_add_le`: a new link is not encrypted. -/
def bt_conn_add_le (dst : α) : bt_conn α where
  dst := dst
  encrypt := false
  sec_level := BT_SECURITY_L1
  required_sec_level := BT_SECURITY_L1
  state := BT_CONN_CONNECTED

def bt_conn_disconnect (conn : bt_conn α) : bt_conn α :=
  { conn with state := BT_CONN_DISCONNECT }

/-- The level that the keys stand for. -/
def bt_keys.sec_level : Option bt_keys → bt_security_t
  | none => BT_SECURITY_L2
  | some keys =>
    if keys.authenticated then
      if keys.sc ∧ keys.enc_size = BT_SMP_MAX_ENC_KEY_SIZE then BT_SECURITY_L4 else BT_SECURITY_L3
    else BT_SECURITY_L2

def update_sec_level (conn : bt_conn α) (keys : Option bt_keys) : bt_conn α :=
  if !conn.encrypt then { conn with sec_level := BT_SECURITY_L1 }
  else if (bt_keys.sec_level keys).level < conn.required_sec_level.level then
    bt_conn_disconnect { conn with sec_level := bt_keys.sec_level keys }
  else { conn with sec_level := bt_keys.sec_level keys }

def reset_pairing (conn : bt_conn α) : bt_conn α :=
  { conn with required_sec_level := conn.sec_level }

/-- `bt_conn_set_security`, with whether the pairing could not be started. -/
def bt_conn_set_security (conn : bt_conn α) (sec : bt_security_t) (err : Bool) : bt_conn α :=
  if conn.state ≠ BT_CONN_CONNECTED then conn
  else if sec.level ≤ conn.sec_level.level ∨ sec.level ≤ conn.required_sec_level.level then conn
  else if err then reset_pairing conn
  else { conn with required_sec_level := sec }

end

def BT_GATT_PERM_READ : uint8_t := 0x01
def BT_GATT_PERM_WRITE : uint8_t := 0x02
def BT_GATT_PERM_READ_ENCRYPT : uint8_t := 0x04
def BT_GATT_PERM_WRITE_ENCRYPT : uint8_t := 0x08
def BT_GATT_PERM_READ_AUTHEN : uint8_t := 0x10
def BT_GATT_PERM_WRITE_AUTHEN : uint8_t := 0x20

def BT_GATT_PERM_READ_MASK : uint8_t :=
  BT_GATT_PERM_READ ||| BT_GATT_PERM_READ_ENCRYPT ||| BT_GATT_PERM_READ_AUTHEN
def BT_GATT_PERM_WRITE_MASK : uint8_t :=
  BT_GATT_PERM_WRITE ||| BT_GATT_PERM_WRITE_ENCRYPT ||| BT_GATT_PERM_WRITE_AUTHEN
def BT_GATT_PERM_ENCRYPT_MASK : uint8_t := BT_GATT_PERM_READ_ENCRYPT ||| BT_GATT_PERM_WRITE_ENCRYPT
def BT_GATT_PERM_AUTHEN_MASK : uint8_t := BT_GATT_PERM_READ_AUTHEN ||| BT_GATT_PERM_WRITE_AUTHEN

/-- A property of a characteristic, which the service also uses as a permission. -/
def BT_GATT_CHRC_NOTIFY : uint8_t := 0x10

def BT_ATT_ERR_READ_NOT_PERMITTED : Int := 0x02
def BT_ATT_ERR_WRITE_NOT_PERMITTED : Int := 0x03
def BT_ATT_ERR_AUTHENTICATION : Int := 0x05
def BT_ATT_ERR_INVALID_ATTRIBUTE_LEN : Int := 0x0d
def BT_ATT_ERR_INSUFFICIENT_ENCRYPTION : Int := 0x0f
def BT_ATT_ERR_INSUFFICIENT_RESOURCES : Int := 0x11

/-- The attributes of the service that have a value: those with a read handler of
their own, the client's configuration, and the control point. -/
inductive svc_attr where
  | value (uuid : hids_uuid)
  | ccc
  | ctrl_point
  deriving DecidableEq, Repr

/-- The permissions in the service declaration. -/
def svc_attr.perm : svc_attr → uint8_t
  | .value .HIDS_INFO => BT_GATT_PERM_READ
  | .value .HIDS_REPORT_MAP => BT_GATT_PERM_READ
  | .value .HIDS_REPORT => BT_GATT_PERM_READ_AUTHEN
  | .value .HIDS_REPORT_REF => BT_GATT_PERM_READ ||| BT_GATT_CHRC_NOTIFY
  | .ccc => BT_GATT_PERM_READ_AUTHEN ||| BT_GATT_PERM_WRITE_AUTHEN
  | .ctrl_point => BT_GATT_PERM_WRITE

/-- Whether the declaration has a read handler, and a write handler. -/
def svc_attr.has_read : svc_attr → Bool
  | .value _ | .ccc => true
  | .ctrl_point => false

def svc_attr.has_write : svc_attr → Bool
  | .value _ => false
  | .ccc | .ctrl_point => true

def bt_gatt_check_perm {α : Type} (conn : bt_conn α) (attr : svc_attr) (mask : uint8_t) : Int :=
  if mask &&& BT_GATT_PERM_READ ≠ 0 ∧ (attr.perm &&& BT_GATT_PERM_READ_MASK = 0 ∨ !attr.has_read) then
    BT_ATT_ERR_READ_NOT_PERMITTED
  else if mask &&& BT_GATT_PERM_WRITE ≠ 0 ∧ (attr.perm &&& BT_GATT_PERM_WRITE_MASK = 0 ∨ !attr.has_write) then
    BT_ATT_ERR_WRITE_NOT_PERMITTED
  else
    let mask := mask &&& attr.perm
    if mask &&& BT_GATT_PERM_AUTHEN_MASK ≠ 0 ∧ conn.sec_level.level < BT_SECURITY_L3.level then
      BT_ATT_ERR_AUTHENTICATION
    else if mask &&& BT_GATT_PERM_ENCRYPT_MASK ≠ 0 ∧ !conn.encrypt then BT_ATT_ERR_INSUFFICIENT_ENCRYPTION
    else 0

/-- An entry of the configuration table. One without a peer (`BT_ADDR_LE_ANY`) is
free and has no value. -/
structure bt_gatt_ccc_cfg (α : Type) where
  peer : Option α
  value : uint16_t
  any_value : peer = none → value = 0
  deriving DecidableEq

def clear_ccc_cfg {α : Type} : bt_gatt_ccc_cfg α where
  peer := none
  value := 0
  any_value := fun _ => rfl

def bt_gatt_ccc_cfg.of_peer {α : Type} (peer : α) (value : uint16_t) : bt_gatt_ccc_cfg α where
  peer := some peer
  value := value
  any_value := fun hany => absurd hany (Option.some_ne_none peer)

/-- A report sent to a peer, with the link as it was then. -/
structure Notification (α : Type) where
  conn : bt_conn α
  report : hids_report_keyboard
  deriving DecidableEq, Repr

/-- The server's side of the service: the table of configurations and their
consolidated value, the links, the statics of `hog.c`, and what has been sent. -/
structure Server (α : Type) where
  cfg : List (bt_gatt_ccc_cfg α)
  value : uint16_t
  conns : List (bt_conn α)
  hog : Hog
  ctrl_point : uint8_t
  sent : List (Notification α)

namespace Server

variable {α : Type}

/-- After start-up, with the configurations of bonded peers as they were stored. -/
def initial (cfg : List (bt_gatt_ccc_cfg α)) : Server α where
  cfg := cfg
  value := 0
  conns := []
  hog := .initial
  ctrl_point := 0
  sent := []

/-- The highest value in the table. -/
def highest (cfg : List (bt_gatt_ccc_cfg α)) : uint16_t :=
  cfg.foldl (fun value entry => if value < entry.value then entry.value else value) 0

def gatt_ccc_changed (s : Server α) : Server α :=
  if highest s.cfg ≠ s.value then
    { s with value := highest s.cfg, hog := input_ccc_changed s.hog (highest s.cfg) }
  else s

/-- The second half of `bt_gatt_attr_write_ccc`, with the peer's entry at hand. -/
def set_cfg (s : Server α) (i : Nat) (peer : α) (value : uint16_t) : Server α :=
  let s := { s with cfg := s.cfg.set i (.of_peer peer value) }
  let s := if value ≠ s.value then gatt_ccc_changed s else s
  if value = 0 then { s with cfg := s.cfg.set i clear_ccc_cfg } else s

variable [DecidableEq α]

def lookup (s : Server α) (dst : α) : Option (bt_conn α) :=
  s.conns.find? fun conn => conn.dst = dst

/-- The first entry of a peer, or the first free one. -/
def find_ccc_cfg (cfg : List (bt_gatt_ccc_cfg α)) (peer : Option α) : Option Nat :=
  cfg.findIdx? fun entry => entry.peer = peer

/-- The value of a peer's entry, none being as good as zero. -/
def configured (cfg : List (bt_gatt_ccc_cfg α)) (peer : α) : uint16_t :=
  match cfg.find? fun entry => entry.peer = some peer with
  | some entry => entry.value
  | none => 0

def bt_gatt_attr_read_ccc (s : Server α) (conn : bt_conn α) (len offset : uint16_t) : Except Int (List uint8_t) :=
  let value := configured s.cfg conn.dst
  bt_gatt_attr_read len offset [value.setWidth 8, (value >>> 8).setWidth 8] 2

/-- The configuration of a peer, in its own entry or in a free one. -/
def configure (s : Server α) (conn : bt_conn α) (len : Nat) (value : uint16_t) : Except Int Nat × Server α :=
  match find_ccc_cfg s.cfg (some conn.dst) with
  | some i => (.ok len, s.set_cfg i conn.dst value)
  | none =>
    -- a disabled configuration is the same as none
    if value = 0 then (.ok len, s)
    else
      match find_ccc_cfg s.cfg none with
      | some i => (.ok len, s.set_cfg i conn.dst value)
      | none => (.error (BT_GATT_ERR BT_ATT_ERR_INSUFFICIENT_RESOURCES), s)

def bt_gatt_attr_write_ccc (s : Server α) (conn : bt_conn α) (buf : List uint8_t) (offset : uint16_t) :
    Except Int Nat × Server α :=
  if offset ≠ 0 then (.error (BT_GATT_ERR BT_ATT_ERR_INVALID_OFFSET), s)
  else
    match buf with
    | [byte] => s.configure conn 1 (byte.setWidth 16)
    | [low, high] => s.configure conn 2 (high ++ low)
    | _ => (.error (BT_GATT_ERR BT_ATT_ERR_INVALID_ATTRIBUTE_LEN), s)

/-- `write_ctrl_point`, on the one byte of the control point. -/
def write_ctrl_point (s : Server α) (buf : List uint8_t) (offset : uint16_t) : Except Int Nat × Server α :=
  if 1 < offset.toNat + buf.length then (.error (BT_GATT_ERR BT_ATT_ERR_INVALID_OFFSET), s)
  else
    match buf with
    | byte :: _ => (.ok buf.length, { s with ctrl_point := byte })
    | [] => (.ok 0, s)

/-- `write_cb`: the permissions of the attribute, then its handler. -/
def write (s : Server α) (conn : bt_conn α) (attr : svc_attr) (buf : List uint8_t) (offset : uint16_t) :
    Except Int Nat × Server α :=
  if bt_gatt_check_perm conn attr BT_GATT_PERM_WRITE_MASK ≠ 0 then
    (.error (bt_gatt_check_perm conn attr BT_GATT_PERM_WRITE_MASK), s)
  else
    match attr with
    | .ccc => s.bt_gatt_attr_write_ccc conn buf offset
    | .ctrl_point => s.write_ctrl_point buf offset
    | .value _ => (.error BT_ATT_ERR_WRITE_NOT_PERMITTED, s)

/-- `read_cb`: the permissions of the attribute, then its handler. -/
def read (s : Server α) (conn : bt_conn α) (attr : svc_attr) (len offset : uint16_t) : Except Int (List uint8_t) :=
  if bt_gatt_check_perm conn attr BT_GATT_PERM_READ_MASK ≠ 0 then
    .error (bt_gatt_check_perm conn attr BT_GATT_PERM_READ_MASK)
  else
    match attr with
    | .value uuid => read_attr s.hog uuid len offset
    | .ccc => s.bt_gatt_attr_read_ccc conn len offset
    | .ctrl_point => .error BT_ATT_ERR_READ_NOT_PERMITTED

/-- The loop of `update_ccc` over the entries. -/
def update_ccc (s : Server α) (conn : bt_conn α) : List (bt_gatt_ccc_cfg α) → Server α
  | [] => s
  | entry :: rest =>
    if entry.value = 0 ∨ entry.peer ≠ some conn.dst then update_ccc s conn rest
    else
      let err := bt_gatt_check_perm conn .ccc BT_GATT_PERM_WRITE_MASK
      if err = 0 then s.gatt_ccc_changed
      else if err = BT_ATT_ERR_WRITE_NOT_PERMITTED then update_ccc s conn rest
      else
        let sec := if err = BT_ATT_ERR_AUTHENTICATION then BT_SECURITY_L3 else BT_SECURITY_L2
        if conn.sec_level.level < sec.level then update_ccc s conn rest else s.gatt_ccc_changed

/-- `bt_gatt_connected` and `bt_gatt_encrypt_change`. -/
def refresh (s : Server α) (dst : α) : Server α :=
  match s.lookup dst with
  | some conn => update_ccc s conn s.cfg
  | none => s

/-- `disconnected_cb`, once the link is no longer connected, with whether its peer
is bonded. -/
def disconnected_cb (s : Server α) (dst : α) (bonded : Bool) : Server α :=
  if s.value = 0 then s
  else
    let used := s.cfg.any fun entry => entry.value ≠ 0 ∧ entry.peer ≠ some dst ∧
      (entry.peer.bind s.lookup).any fun conn => conn.state = BT_CONN_CONNECTED
    let cfg := s.cfg.map fun entry =>
      if entry.value ≠ 0 ∧ entry.peer = some dst ∧ !bonded then clear_ccc_cfg else entry
    if used then { s with cfg := cfg }
    else { s with cfg := cfg, value := 0, hog := input_ccc_changed s.hog 0 }

/-- The loop of `notify_cb` over the entries, up to a peer to which the report
cannot be sent. -/
def notify_cb (s : Server α) (report : hids_report_keyboard) (refused : α → Bool) :
    List (bt_gatt_ccc_cfg α) → List (Notification α)
  | [] => []
  | entry :: rest =>
    if entry.value ≠ BT_GATT_CCC_NOTIFY then notify_cb s report refused rest
    else
      match entry.peer.bind s.lookup with
      | none => notify_cb s report refused rest
      | some conn =>
        if conn.state ≠ BT_CONN_CONNECTED then notify_cb s report refused rest
        else if refused conn.dst then []
        else ⟨conn, report⟩ :: notify_cb s report refused rest

/-- `hog_set_keyboard_input`, with the `bt_gatt_notify` that it leads to. -/
def set_keyboard_input (s : Server α) (report : hids_report_keyboard) (refused : α → Bool) : Server α :=
  { s with
    hog := hog_set_keyboard_input s.hog report
    sent := s.sent ++ if s.hog.simulate_input = 0 then [] else notify_cb s report refused s.cfg }

def update_conn (s : Server α) (dst : α) (f : bt_conn α → bt_conn α) : Server α :=
  { s with conns := s.conns.map fun conn => if conn.dst = dst then f conn else conn }

end Server

/-- What happens to the server: links come and go, their security changes or
fails to, peers write attributes, and reports are handed over. -/
inductive Event (α : Type) where
  | connected (dst : α)
  | set_security (dst : α) (sec : bt_security_t) (err : Bool)
  | encrypt_change (dst : α) (encrypt : Bool) (keys : Option bt_keys)
  | key_refresh (dst : α) (keys : Option bt_keys)
  | security_failed (dst : α)
  | write (dst : α) (attr : svc_attr) (buf : List uint8_t) (offset : uint16_t)
  | disconnected (dst : α) (bonded : Bool)
  | set (report : hids_report_keyboard) (refused : α → Bool)

variable {α : Type} [DecidableEq α]

/-- One event, with room for `max_conn` links. -/
def Server.step (max_conn : Nat) (s : Server α) : Event α → Server α
  | .connected dst =>
    if (s.lookup dst).isSome ∨ max_conn ≤ s.conns.length then s
    else { s with conns := s.conns ++ [bt_conn_add_le dst] }.refresh dst
  | .set_security dst sec err => s.update_conn dst (bt_conn_set_security · sec err)
  | .encrypt_change dst encrypt keys =>
    (s.update_conn dst fun conn => reset_pairing (update_sec_level { conn with encrypt := encrypt } keys)).refresh dst
  | .key_refresh dst keys =>
    (s.update_conn dst fun conn => reset_pairing (update_sec_level conn keys)).refresh dst
  | .security_failed dst => s.update_conn dst reset_pairing
  | .write dst attr buf offset =>
    match s.lookup dst with
    | some conn => (s.write conn attr buf offset).2
    | none => s
  | .disconnected dst bonded =>
    match s.lookup dst with
    | some _ => { s with conns := s.conns.filter fun conn => conn.dst ≠ dst }.disconnected_cb dst bonded
    | none => s
  | .set report refused => s.set_keyboard_input report refused

/-- The server after a sequence of events. -/
def Server.run (max_conn : Nat) (cfg : List (bt_gatt_ccc_cfg α)) (events : List (Event α)) : Server α :=
  events.foldl (Server.step max_conn) (.initial cfg)

end peripheral_hids.gatt
