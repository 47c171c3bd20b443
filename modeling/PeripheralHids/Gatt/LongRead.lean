import Mathlib.Algebra.Ring.Nat
import PeripheralHids.Gatt.Funs

open peripheral_hids.hog

namespace peripheral_hids.gatt

def BT_ATT_OP_READ_REQ : uint8_t := 0x0a
def BT_ATT_OP_READ_RSP : uint8_t := 0x0b
def BT_ATT_OP_READ_BLOB_REQ : uint8_t := 0x0c
def BT_ATT_OP_READ_BLOB_RSP : uint8_t := 0x0d
def BT_ATT_ERR_UNLIKELY : Int := 0x0e

/-- A length within an MTU is passed on as it is. -/
theorem toNat_ofNat_of_le {n : Nat} {mtu : uint16_t} (hle : n ≤ mtu.toNat) : (BitVec.ofNat 16 n).toNat = n :=
  Nat.mod_eq_of_lt (Nat.lt_of_le_of_lt hle mtu.isLt)

/-- An offset within a value does not wrap. -/
theorem toNat_offset_add {offset : uint16_t} {n : Nat} {value : List uint8_t}
    (hwithin : offset.toNat + n ≤ value.length) (hlength : value.length < 2 ^ 16) :
    (offset + BitVec.ofNat 16 n).toNat = offset.toNat + n := by
  rw [BitVec.toNat_add, BitVec.toNat_ofNat, Nat.add_mod_mod]
  exact Nat.mod_eq_of_lt (Nat.lt_of_le_of_lt hwithin hlength)

/-- A response under construction: what follows its opcode, the room behind it in the
last fragment, and the room in each of the buffers that can still be allocated. -/
structure net_buf where
  value : List uint8_t
  tailroom : Nat
  pool : List Nat

namespace net_buf

/-- `net_buf_frags_len`, with the opcode -/
def frags_len (buf : net_buf) : Nat := 1 + buf.value.length

/-- The bytes that are asked for at a time. -/
def fit (buf : net_buf) (mtu : uint16_t) : Nat := min (mtu.toNat - buf.frags_len) buf.tailroom

/-- The buffer with a fragment added if the last one has no room. -/
def room (buf : net_buf) (mtu : uint16_t) : Option net_buf :=
  if buf.fit mtu ≠ 0 then some buf
  else buf.pool.head?.map fun tailroom => ⟨buf.value, tailroom, buf.pool.tail⟩

/-- `net_buf_add` -/
def add (buf : net_buf) (bytes : List uint8_t) : net_buf :=
  ⟨buf.value ++ bytes, buf.tailroom - bytes.length, buf.pool⟩

/-- The bytes that there will be room for. -/
def capacity (buf : net_buf) (mtu : uint16_t) : Nat :=
  min (mtu.toNat - buf.frags_len) (buf.tailroom + buf.pool.sum)

theorem frags_len_add (buf : net_buf) (bytes : List uint8_t) :
    (buf.add bytes).frags_len = buf.frags_len + bytes.length := by
  rw [frags_len, frags_len, add, List.length_append, Nat.add_assoc]

theorem room_cases {buf next : net_buf} {mtu : uint16_t} (hroom : buf.room mtu = some next) :
    (buf.fit mtu ≠ 0 ∧ next = buf) ∨
      (buf.fit mtu = 0 ∧ next.value = buf.value ∧ buf.pool = next.tailroom :: next.pool) := by
  unfold room at hroom
  split at hroom
  case isTrue hfit => exact Or.inl ⟨hfit, (Option.some.inj hroom).symm⟩
  case isFalse hfit =>
    obtain ⟨tailroom, hhead, rfl⟩ := Option.map_eq_some_iff.mp hroom
    exact Or.inr ⟨not_not.mp hfit, rfl, List.eq_cons_of_mem_head? hhead⟩

theorem room_value {buf next : net_buf} {mtu : uint16_t} (hroom : buf.room mtu = some next) :
    next.value = buf.value := by
  obtain ⟨-, rfl⟩ | ⟨-, hvalue, -⟩ := room_cases hroom
  · rfl
  · exact hvalue

theorem room_capacity {buf next : net_buf} {mtu : uint16_t} (hroom : buf.room mtu = some next) :
    next.capacity mtu = buf.capacity mtu := by
  obtain ⟨-, rfl⟩ | ⟨hfit, hvalue, hpool⟩ := room_cases hroom
  · rfl
  · unfold fit at hfit
    unfold capacity
    rw [hpool, List.sum_cons]
    simp only [frags_len, hvalue] at hfit ⊢
    omega

theorem room_none {buf : net_buf} {mtu : uint16_t} (hroom : buf.room mtu = none) : buf.capacity mtu = 0 := by
  unfold room at hroom
  split at hroom
  case isTrue => cases hroom
  case isFalse hfit =>
    have hpool : buf.pool = [] := List.head?_eq_none_iff.mp (Option.map_eq_none_iff.mp hroom)
    rw [capacity, hpool, List.sum_nil, Nat.add_zero]
    exact not_not.mp hfit

theorem capacity_add {buf : net_buf} {mtu : uint16_t} {bytes : List uint8_t} (hbytes : bytes.length = buf.fit mtu) :
    buf.capacity mtu = buf.fit mtu + (buf.add bytes).capacity mtu := by
  unfold capacity
  rw [frags_len_add, hbytes]
  simp only [add, hbytes]
  unfold fit
  omega

/-- A round that fills the response uses all the room there is. -/
theorem capacity_eq_fit (buf : net_buf) {mtu : uint16_t} {bytes : List uint8_t} (hbytes : bytes.length = buf.fit mtu)
    (hfull : ¬ (buf.add bytes).frags_len < mtu.toNat) : buf.capacity mtu = buf.fit mtu := by
  have hrest : (buf.add bytes).capacity mtu = 0 := by
    unfold capacity
    omega
  rw [capacity_add hbytes, hrest, Nat.add_zero]

theorem toNat_fit (buf : net_buf) (mtu : uint16_t) : (BitVec.ofNat 16 (buf.fit mtu)).toNat = buf.fit mtu :=
  toNat_ofNat_of_le (Nat.le_trans (Nat.min_le_left _ _) (Nat.sub_le _ _))

theorem fit_le_capacity (buf : net_buf) (mtu : uint16_t) : buf.fit mtu ≤ buf.capacity mtu := by
  unfold fit capacity
  omega

/-- A round that goes on has filled some of the response or used a buffer. -/
theorem room_add_lt {buf next : net_buf} {mtu : uint16_t} {bytes : List uint8_t} (hroom : buf.room mtu = some next)
    (hbytes : bytes.length = next.fit mtu) :
    (next.add bytes).pool.length + (mtu.toNat - (next.add bytes).frags_len) <
      buf.pool.length + (mtu.toNat - buf.frags_len) := by
  rw [frags_len_add, hbytes]
  obtain ⟨hfit, rfl⟩ | ⟨-, hvalue, hpool⟩ := room_cases hroom
  · simp only [add]
    unfold fit at hfit ⊢
    omega
  · rw [hpool, List.length_cons]
    simp only [add, frags_len, hvalue]
    omega

end net_buf

/-- The loop of `att_chan_read`: it ends when the response is full, the value is at an
end or there is no buffer. -/
def att_chan_read_loop (mtu : uint16_t) (read : uint16_t → uint16_t → Except Int (List uint8_t)) (buf : net_buf)
    (offset : uint16_t) (total : Nat) : Except Int (Nat × net_buf) :=
  match _hroom : buf.room mtu with
  | none => .ok (total, buf)
  | some frag =>
    match read (BitVec.ofNat 16 (frag.fit mtu)) offset with
    | .error err => if total ≠ 0 then .ok (total, frag) else .error err
    | .ok bytes =>
      if _hmore : (frag.add bytes).frags_len < mtu.toNat ∧ bytes.length = frag.fit mtu then
        att_chan_read_loop mtu read (frag.add bytes) (offset + BitVec.ofNat 16 bytes.length) (total + bytes.length)
      else .ok (total + bytes.length, frag.add bytes)
termination_by buf.pool.length + (mtu.toNat - buf.frags_len)
decreasing_by exact net_buf.room_add_lt _hroom _hmore.2

def att_chan_read (mtu : uint16_t) (read : uint16_t → uint16_t → Except Int (List uint8_t)) (buf : net_buf)
    (offset : uint16_t) : Except Int (Nat × net_buf) :=
  if mtu.toNat ≤ buf.frags_len then .ok (0, buf) else att_chan_read_loop mtu read buf offset 0

/-- A read handler that gives the requested part of a value. -/
structure Reads (read : uint16_t → uint16_t → Except Int (List uint8_t)) (value : List uint8_t) : Prop where
  length_lt : value.length < 2 ^ 16
  eq : ∀ len offset : uint16_t, read len offset =
    if value.length < offset.toNat then .error (BT_GATT_ERR BT_ATT_ERR_INVALID_OFFSET)
    else .ok ((value.drop offset.toNat).take len.toNat)

section

variable {read : uint16_t → uint16_t → Except Int (List uint8_t)} {value : List uint8_t}

theorem Reads.ok (hread : Reads read value) (len : uint16_t) {offset : uint16_t}
    (hoffset : offset.toNat ≤ value.length) :
    read len offset = .ok ((value.drop offset.toNat).take len.toNat) := by
  rw [hread.eq, if_neg (Nat.not_lt.mpr hoffset)]

theorem take_fit {n m : Nat} (hle : n ≤ m) (hshort : (value.take n).length ≠ n) : value.take m = value.take n := by
  rw [List.length_take] at hshort
  rw [List.take_of_length_le (by omega), List.take_of_length_le (by omega)]

/-- What the loop appends is the part of the value from the offset on that there is
room for, however the room is split into fragments. -/
theorem att_chan_read_loop_value (hread : Reads read value) (mtu : uint16_t) (buf : net_buf) (offset : uint16_t)
    (total : Nat) (hoffset : offset.toNat ≤ value.length) :
    ∃ n out, att_chan_read_loop mtu read buf offset total = .ok (n, out) ∧
      out.value = buf.value ++ (value.drop offset.toNat).take (buf.capacity mtu) := by
  induction hmeasure : buf.pool.length + (mtu.toNat - buf.frags_len) using Nat.strongRecOn
    generalizing buf offset total with
  | ind measure ih =>
    rw [att_chan_read_loop]
    split
    case h_1 hroom =>
      refine ⟨total, buf, rfl, ?_⟩
      rw [net_buf.room_none hroom, List.take_zero, List.append_nil]
    case h_2 frag hroom =>
      obtain ⟨bytes, hbytes⟩ : ∃ bytes, bytes = (value.drop offset.toNat).take (frag.fit mtu) := ⟨_, rfl⟩
      rw [hread.ok _ hoffset, frag.toNat_fit mtu, ← hbytes, ← net_buf.room_capacity hroom, ← net_buf.room_value hroom]
      dsimp only
      split
      case isTrue hmore =>
        -- the fragment is full and the value goes on behind it
        have hwithin : offset.toNat + bytes.length ≤ value.length := by
          rw [hbytes, List.length_take, List.length_drop]
          omega
        have hnext := toNat_offset_add hwithin hread.length_lt
        obtain ⟨n, out, hloop, hvalue⟩ := ih _ (hmeasure ▸ net_buf.room_add_lt hroom hmore.2) (frag.add bytes)
          (offset + BitVec.ofNat 16 bytes.length) (total + bytes.length) (hnext ▸ hwithin) rfl
        refine ⟨n, out, hloop, ?_⟩
        rw [hvalue, hnext, net_buf.capacity_add hmore.2, List.take_add, List.drop_drop, ← hbytes, hmore.2]
        exact List.append_assoc _ _ _
      case isFalse hmore =>
        refine ⟨_, _, rfl, congrArg (frag.value ++ ·) ?_⟩
        by_cases hlen : bytes.length = frag.fit mtu
        · rw [frag.capacity_eq_fit hlen fun hlt => hmore ⟨hlt, hlen⟩, hbytes]
        · rw [hbytes] at hlen ⊢
          exact (take_fit (frag.fit_le_capacity mtu) hlen).symm

theorem att_chan_read_value (hread : Reads read value) (mtu : uint16_t) (buf : net_buf) {offset : uint16_t}
    (hoffset : offset.toNat ≤ value.length) :
    ∃ n out, att_chan_read mtu read buf offset = .ok (n, out) ∧
      out.value = buf.value ++ (value.drop offset.toNat).take (buf.capacity mtu) := by
  unfold att_chan_read
  split
  case isTrue hfull =>
    refine ⟨0, buf, rfl, ?_⟩
    rw [net_buf.capacity, Nat.sub_eq_zero_of_le hfull, Nat.zero_min, List.take_zero, List.append_nil]
  case isFalse => exact att_chan_read_loop_value hread mtu buf offset 0 hoffset

end

def err_to_att (err : Int) : Int := if err < 0 ∧ -0xff ≤ err then -err else BT_ATT_ERR_UNLIKELY

/-- What a read is answered with: the code of the request and the error, or the code of
the response and the part of the value. -/
inductive att_pdu where
  | error_rsp (request : uint8_t) (error : Int)
  | rsp (op : uint8_t) (value : List uint8_t)

/-- A request when it is served: the server and the link as they are then, and the room
in the buffers that can be allocated for the response, behind the opcode in the first. -/
structure Request (α : Type) where
  server : Server α
  conn : bt_conn α
  bufs : List Nat

theorem has_read_of_check_perm {α : Type} {conn : bt_conn α} {attr : svc_attr}
    (hperm : bt_gatt_check_perm conn attr BT_GATT_PERM_READ_MASK = 0) : attr.has_read := by
  cases attr with
  | value uuid => rfl
  | ccc => rfl
  | ctrl_point =>
    have hrefused : bt_gatt_check_perm conn .ctrl_point BT_GATT_PERM_READ_MASK = BT_ATT_ERR_READ_NOT_PERMITTED :=
      if_pos (by decide)
    rw [hrefused] at hperm
    cases hperm

theorem check_perm_report_map {α : Type} (conn : bt_conn α) :
    bt_gatt_check_perm conn (.value .HIDS_REPORT_MAP) BT_GATT_PERM_READ_MASK = 0 := by
  unfold bt_gatt_check_perm
  rw [if_neg (by decide), if_neg (by decide)]
  dsimp only
  rw [if_neg fun hauthen => absurd hauthen.1 (by decide), if_neg fun hencrypt => absurd hencrypt.1 (by decide)]

section

variable {α : Type} [DecidableEq α]

/-- The read handler of an attribute. -/
def Server.attr_read (s : Server α) (conn : bt_conn α) (attr : svc_attr) (len offset : uint16_t) :
    Except Int (List uint8_t) :=
  match attr with
  | .value uuid => read_attr s.hog uuid len offset
  | .ccc => s.bt_gatt_attr_read_ccc conn len offset
  -- there is none, and the permissions are checked before
  | .ctrl_point => .error BT_ATT_ERR_READ_NOT_PERMITTED

/-- The value of an attribute for a peer. -/
def Server.attr_value (s : Server α) (conn : bt_conn α) : svc_attr → List uint8_t
  | .value uuid => s.hog.value uuid
  | .ccc =>
    let value := Server.configured s.cfg conn.dst
    [value.setWidth 8, (value >>> 8).setWidth 8]
  | .ctrl_point => []

theorem value_length_le (h : Hog) (uuid : hids_uuid) : (h.value uuid).length ≤ 63 := by
  rw [h.value_length .initial]
  cases uuid <;> decide

theorem Server.attr_read_reads (s : Server α) (conn : bt_conn α) {attr : svc_attr} (hread : attr.has_read) :
    Reads (s.attr_read conn attr) (s.attr_value conn attr) := by
  cases attr with
  | value uuid =>
    refine ⟨Nat.lt_of_le_of_lt (value_length_le s.hog uuid) (by decide), ?_⟩
    exact read_attr_eq s.hog uuid
  | ccc =>
    have hlength : (s.attr_value conn .ccc).length = 2 := rfl
    exact ⟨by omega, bt_gatt_attr_read_of_length rfl⟩
  | ctrl_point => cases hread

def read_cb (s : Server α) (conn : bt_conn α) (mtu : uint16_t) (attr : svc_attr) (buf : net_buf) (offset : uint16_t) :
    Except Int net_buf :=
  if bt_gatt_check_perm conn attr BT_GATT_PERM_READ_MASK ≠ 0 then
    .error (bt_gatt_check_perm conn attr BT_GATT_PERM_READ_MASK)
  else
    match att_chan_read mtu (s.attr_read conn attr) buf offset with
    | .error ret => .error (err_to_att ret)
    | .ok (_, buf) => .ok buf

def att_read_rsp (mtu : uint16_t) (r : Request α) (op rsp : uint8_t) (attr : svc_attr) (offset : uint16_t) :
    att_pdu :=
  match r.bufs with
  | [] => .error_rsp op BT_ATT_ERR_UNLIKELY
  | tailroom :: pool =>
    match read_cb r.server r.conn mtu attr ⟨[], tailroom, pool⟩ offset with
    | .error err => .error_rsp op err
    | .ok buf => .rsp rsp buf.value

def att_read_req (mtu : uint16_t) (r : Request α) (attr : svc_attr) : att_pdu :=
  att_read_rsp mtu r BT_ATT_OP_READ_REQ BT_ATT_OP_READ_RSP attr 0

def att_read_blob_req (mtu : uint16_t) (r : Request α) (attr : svc_attr) (offset : uint16_t) : att_pdu :=
  att_read_rsp mtu r BT_ATT_OP_READ_BLOB_REQ BT_ATT_OP_READ_BLOB_RSP attr offset

/-- The bytes of a value that a response has room for. -/
def Request.room (r : Request α) (mtu : uint16_t) : Nat := min (mtu.toNat - 1) r.bufs.sum

theorem att_read_rsp_value {r : Request α} {attr : svc_attr} {offset : uint16_t}
    (hperm : bt_gatt_check_perm r.conn attr BT_GATT_PERM_READ_MASK = 0) (hbufs : r.bufs ≠ [])
    (hoffset : offset.toNat ≤ (r.server.attr_value r.conn attr).length) (mtu : uint16_t) (op rsp : uint8_t) :
    att_read_rsp mtu r op rsp attr offset =
      .rsp rsp (((r.server.attr_value r.conn attr).drop offset.toNat).take (r.room mtu)) := by
  obtain ⟨tailroom, pool, hcons⟩ := List.exists_cons_of_ne_nil hbufs
  have hreads := r.server.attr_read_reads r.conn (has_read_of_check_perm hperm)
  obtain ⟨n, out, hread, hvalue⟩ := att_chan_read_value hreads mtu ⟨[], tailroom, pool⟩ hoffset
  simp only [att_read_rsp, hcons, read_cb, hperm, hread, hvalue, ne_eq, not_true_eq_false, if_false, List.nil_append]
  rw [Request.room, hcons, List.sum_cons]
  rfl

/-- A read of a client: the offset it goes on at, what it has been given so far, and the
error code that it was told the end with. -/
structure bt_gatt_read_params where
  offset : uint16_t
  data : List uint8_t
  err : Option Int

/-- The answer to a request of a client that wants the whole value. -/
def gatt_read_rsp (mtu : uint16_t) (params : bt_gatt_read_params) : att_pdu → bt_gatt_read_params
  | .error_rsp _ err => { params with err := some err }
  | .rsp _ pdu =>
    if pdu.length = 0 then { params with err := some 0 }
    else if pdu.length < mtu.toNat - 1 then { params with data := params.data ++ pdu, err := some 0 }
    else { params with data := params.data ++ pdu, offset := params.offset + BitVec.ofNat 16 pdu.length }

/-- One round of `bt_gatt_read`: a first request, or one for the rest. -/
def bt_gatt_read (mtu : uint16_t) (attr : svc_attr) (params : bt_gatt_read_params) (r : Request α) :
    bt_gatt_read_params :=
  if params.err.isSome then params
  else if params.offset ≠ 0 then gatt_read_rsp mtu params (att_read_blob_req mtu r attr params.offset)
  else gatt_read_rsp mtu params (att_read_req mtu r attr)

theorem foldl_bt_gatt_read_done {params : bt_gatt_read_params} (hdone : params.err.isSome) (mtu : uint16_t)
    (attr : svc_attr) (requests : List (Request α)) :
    requests.foldl (bt_gatt_read mtu attr) params = params := by
  induction requests with
  | nil => rfl
  | cons r requests ih => rw [List.foldl_cons, bt_gatt_read, if_pos hdone, ih]

theorem bt_gatt_read_eq {params : bt_gatt_read_params} (hreading : params.err = none) (mtu : uint16_t)
    (attr : svc_attr) (r : Request α) :
    ∃ op rsp, bt_gatt_read mtu attr params r =
      gatt_read_rsp mtu params (att_read_rsp mtu r op rsp attr params.offset) := by
  rw [bt_gatt_read, hreading, Option.isSome_none, if_neg Bool.false_ne_true]
  split
  case isTrue => exact ⟨_, _, rfl⟩
  case isFalse hoffset =>
    rw [not_not.mp hoffset]
    exact ⟨_, _, rfl⟩

/-- A client that has read so much of a value. -/
structure Reading (value : List uint8_t) (params : bt_gatt_read_params) : Prop where
  reading : params.err = none
  data : params.data = value.take params.offset.toNat
  offset : params.offset.toNat ≤ value.length

theorem Reading.append {value : List uint8_t} {params : bt_gatt_read_params} (hparams : Reading value params)
    (n : Nat) :
    params.data ++ (value.drop params.offset.toNat).take n = value.take (params.offset.toNat + n) := by
  rw [hparams.data, List.take_add]

/-- An answer that a response has more room than comes ends the read. -/
theorem Reading.short {value : List uint8_t} {params : bt_gatt_read_params} (hparams : Reading value params)
    {mtu : uint16_t} {n : Nat} (op : uint8_t)
    (hshort : ((value.drop params.offset.toNat).take n).length = 0 ∨
      ((value.drop params.offset.toNat).take n).length < mtu.toNat - 1) :
    gatt_read_rsp mtu params (.rsp op ((value.drop params.offset.toNat).take n)) =
      ⟨params.offset, value.take (params.offset.toNat + n), some 0⟩ := by
  rw [gatt_read_rsp, ← hparams.append n]
  by_cases hempty : ((value.drop params.offset.toNat).take n).length = 0
  · rw [if_pos hempty, List.length_eq_zero_iff.mp hempty, List.append_nil]
  · rw [if_neg hempty, if_pos (hshort.resolve_left hempty)]

/-- After a full one the client goes on behind it. -/
theorem Reading.full {value : List uint8_t} {params : bt_gatt_read_params} (hparams : Reading value params)
    (hlength : value.length < 2 ^ 16) {mtu : uint16_t} {n : Nat} (hn : n ≤ mtu.toNat - 1) (op : uint8_t)
    (hfull : ¬ (((value.drop params.offset.toNat).take n).length = 0 ∨
      ((value.drop params.offset.toNat).take n).length < mtu.toNat - 1)) :
    Reading value (gatt_read_rsp mtu params (.rsp op ((value.drop params.offset.toNat).take n))) ∧
      (gatt_read_rsp mtu params (.rsp op ((value.drop params.offset.toNat).take n))).offset.toNat =
        params.offset.toNat + (mtu.toNat - 1) := by
  obtain ⟨hempty, hmtu⟩ := not_or.mp hfull
  have hlen : ((value.drop params.offset.toNat).take n).length = n ∧ n = mtu.toNat - 1 ∧
      params.offset.toNat + n ≤ value.length := by
    rw [List.length_take, List.length_drop] at hmtu hempty ⊢
    omega
  have hnext := toNat_offset_add hlen.2.2 hlength
  rw [gatt_read_rsp, if_neg hempty, if_neg hmtu, hlen.1, ← hlen.2.1]
  refine ⟨⟨hparams.reading, ?_, ?_⟩, hnext⟩
  · rw [hparams.append n, hnext]
  · rw [hnext]
    exact hlen.2.2

/-- Requests that are all answered from the same value, with room for as much as a
response can hold, give the value, if there are enough of them. -/
theorem Reading.foldl {value : List uint8_t} (hlength : value.length < 2 ^ 16) {mtu : uint16_t} {attr : svc_attr}
    {requests : List (Request α)}
    (hrequests : ∀ r ∈ requests, r.server.attr_value r.conn attr = value ∧
      bt_gatt_check_perm r.conn attr BT_GATT_PERM_READ_MASK = 0 ∧ r.bufs ≠ [] ∧ mtu.toNat - 1 ≤ r.bufs.sum)
    {params : bt_gatt_read_params} (hparams : Reading value params)
    (henough : value.length < params.offset.toNat + requests.length * (mtu.toNat - 1)) :
    (requests.foldl (bt_gatt_read mtu attr) params).err = some 0 ∧
      (requests.foldl (bt_gatt_read mtu attr) params).data = value := by
  induction requests generalizing params with
  | nil =>
    have hoffset := hparams.offset
    rw [List.length_nil, Nat.zero_mul] at henough
    omega
  | cons r requests ih =>
    obtain ⟨rfl, hperm, hbufs, hsum⟩ := hrequests r List.mem_cons_self
    obtain ⟨op, rsp, hread⟩ := bt_gatt_read_eq hparams.reading mtu attr r
    have hroom : r.room mtu = mtu.toNat - 1 := Nat.min_eq_left hsum
    rw [List.foldl_cons, hread, att_read_rsp_value hperm hbufs hparams.offset, hroom]
    by_cases hshort : (((r.server.attr_value r.conn attr).drop params.offset.toNat).take (mtu.toNat - 1)).length = 0 ∨
        (((r.server.attr_value r.conn attr).drop params.offset.toNat).take (mtu.toNat - 1)).length < mtu.toNat - 1
    · rw [hparams.short rsp hshort, foldl_bt_gatt_read_done rfl]
      refine ⟨rfl, List.take_of_length_le ?_⟩
      rw [List.length_take, List.length_drop] at hshort
      have hpositive : 0 < mtu.toNat - 1 := by
        refine Nat.pos_of_ne_zero fun hzero => ?_
        rw [hzero, Nat.mul_zero] at henough
        have hoffset := hparams.offset
        omega
      omega
    · obtain ⟨hnext, hoffset⟩ := hparams.full hlength (Nat.le_refl _) rsp hshort
      refine ih (fun r hr => hrequests r (List.mem_cons_of_mem _ hr)) hnext ?_
      rw [hoffset]
      rw [List.length_cons, Nat.succ_mul] at henough
      omega

theorem att_read_rsp_report_map (mtu : uint16_t) {r : Request α} (hbufs : r.bufs ≠ []) (op rsp : uint8_t)
    {offset : uint16_t} (hoffset : offset.toNat ≤ report_map.length) :
    att_read_rsp mtu r op rsp (.value .HIDS_REPORT_MAP) offset =
      .rsp rsp ((report_map.drop offset.toNat).take (r.room mtu)) :=
  att_read_rsp_value (check_perm_report_map r.conn) hbufs hoffset mtu op rsp

/-- A client has read some of the map, and reads on or has come to an end. -/
def MapPart (params : bt_gatt_read_params) : Prop :=
  Reading report_map params ∨ params.err.isSome ∧ ∃ n, params.data = report_map.take n

theorem Reading.map_part {params : bt_gatt_read_params} (hparams : Reading report_map params) (mtu : uint16_t)
    (r : Request α) : MapPart (bt_gatt_read mtu (.value .HIDS_REPORT_MAP) params r) := by
  obtain ⟨op, rsp, hread⟩ := bt_gatt_read_eq hparams.reading mtu (.value .HIDS_REPORT_MAP) r
  rw [hread]
  by_cases hbufs : r.bufs = []
  · rw [att_read_rsp, hbufs]
    exact Or.inr ⟨rfl, params.offset.toNat, hparams.data⟩
  · rw [att_read_rsp_report_map mtu hbufs op rsp hparams.offset]
    by_cases hshort : ((report_map.drop params.offset.toNat).take (r.room mtu)).length = 0 ∨
        ((report_map.drop params.offset.toNat).take (r.room mtu)).length < mtu.toNat - 1
    · rw [hparams.short rsp hshort]
      exact Or.inr ⟨rfl, params.offset.toNat + r.room mtu, rfl⟩
    · exact Or.inl (hparams.full (by decide) (Nat.min_le_left _ _) rsp hshort).1

theorem MapPart.next {params : bt_gatt_read_params} (hparams : MapPart params) (mtu : uint16_t) (r : Request α) :
    MapPart (bt_gatt_read mtu (.value .HIDS_REPORT_MAP) params r) := by
  obtain hreading | hdone := hparams
  · exact hreading.map_part mtu r
  · rw [bt_gatt_read, if_pos hdone.1]
    exact Or.inr hdone

end

end peripheral_hids.gatt
