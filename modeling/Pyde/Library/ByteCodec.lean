/-
Module: Pyde.Library.ByteCodec
Purpose: Byte strings, the little-endian encoding of machine integers, and readers that take values off the front of
  a byte string.
Trusted boundary: none
-/
import Mathlib.Data.Vector.Basic
import Mathlib.Tactic

namespace ByteCodec

open List BitVec

variable {n w start : Nat} {bs xs ys ys' : Bytes}

abbrev Byte := BitVec 8

abbrev Bytes := List Byte

/-- A byte string whose length is part of its type. -/
abbrev FixedBytes (n : Nat) := List.Vector Byte n

/-- The `k` low octets of `n`, least significant first. -/
def leBytes : Nat → Nat → Bytes
  | 0, _ => []
  | k + 1, n => BitVec.ofNat 8 n :: leBytes k (n / 256)

/-- The number a byte string spells, least significant octet first. -/
def ofLeBytes : Bytes → Nat
  | [] => 0
  | b :: bs => b.toNat + 256 * ofLeBytes bs

@[simp] theorem length_leBytes (k n : Nat) : (leBytes k n).length = k := by
  induction k generalizing n with
  | zero => rfl
  | succ k ih => simp [leBytes, ih]

theorem ofLeBytes_lt (bs : Bytes) : ofLeBytes bs < 256 ^ bs.length := by
  induction bs with
  | nil => simp [ofLeBytes]
  | cons b bs ih =>
    have hb : b.toNat < 256 := b.isLt
    simp only [ofLeBytes, length_cons, pow_succ]
    omega

/-- Reading back a number that fits in `k` octets. -/
theorem ofLeBytes_leBytes {k : Nat} (h : n < 256 ^ k) : ofLeBytes (leBytes k n) = n := by
  induction k generalizing n with
  | zero =>
    simp only [pow_zero, Nat.lt_one_iff] at h
    simp [leBytes, ofLeBytes, h]
  | succ k ih =>
    have hdiv : n / 256 < 256 ^ k := by
      rw [pow_succ] at h
      omega
    simp only [leBytes, ofLeBytes, toNat_ofNat, ih hdiv]
    omega

theorem leBytes_ofLeBytes (bs : Bytes) : leBytes bs.length (ofLeBytes bs) = bs := by
  induction bs with
  | nil => rfl
  | cons b bs ih =>
    have hb : b.toNat < 256 := b.isLt
    have hlow : BitVec.ofNat 8 (b.toNat + 256 * ofLeBytes bs) = b := by
      apply eq_of_toNat_eq
      simp only [toNat_ofNat]
      omega
    have hhigh : (b.toNat + 256 * ofLeBytes bs) / 256 = ofLeBytes bs := by omega
    simp only [length_cons, leBytes, ofLeBytes, hlow, hhigh, ih]

/-! ### Machine integers -/

/-- `to_le_bytes`: the `w / 8` octets of a machine integer. -/
def toLe {w : Nat} (x : BitVec w) : Bytes := leBytes (w / 8) x.toNat

/-- `from_le_bytes`: the machine integer that a byte string spells. -/
def ofLe (w : Nat) (bs : Bytes) : BitVec w := BitVec.ofNat w (ofLeBytes bs)

@[simp] theorem length_toLe (x : BitVec w) : (toLe x).length = w / 8 := by
  simp [toLe]

/-- Decoding undoes encoding at every width that is a whole number of octets. -/
theorem ofLe_toLe (hw : 8 ∣ w) (x : BitVec w) : ofLe w (toLe x) = x := by
  obtain ⟨k, rfl⟩ := hw
  have hx : x.toNat < 256 ^ k := by
    have h := x.isLt
    rwa [pow_mul] at h
  apply eq_of_toNat_eq
  rw [ofLe, toLe, Nat.mul_div_cancel_left k (by decide), ofLeBytes_leBytes hx]
  simp

/-- Encoding undoes decoding on byte strings of the right length. -/
theorem toLe_ofLe (hw : 8 ∣ w) (hlen : bs.length = w / 8) : toLe (ofLe w bs) = bs := by
  obtain ⟨k, rfl⟩ := hw
  have hbs := ofLeBytes_lt bs
  rw [hlen, Nat.mul_div_cancel_left k (by decide)] at hbs
  have hlt : ofLeBytes bs < 2 ^ (8 * k) := by rwa [pow_mul]
  rw [toLe, ofLe, toNat_ofNat, Nat.mod_eq_of_lt hlt, ← hlen, leBytes_ofLeBytes]

theorem toLe_inj (hw : 8 ∣ w) {x y : BitVec w} : toLe x = toLe y ↔ x = y := by
  constructor
  · intro h
    rw [← ofLe_toLe hw x, h, ofLe_toLe hw]
  · rintro rfl
    rfl

/-! ### Concatenated fields -/

/-- Two concatenations whose first fields have one length agree exactly when both fields do. -/
theorem append_eq_append_iff_of_length {xs' : Bytes} (h : xs.length = xs'.length) :
    xs ++ ys = xs' ++ ys' ↔ xs = xs' ∧ ys = ys' := by
  constructor
  · intro heq
    exact append_inj heq h
  · rintro ⟨rfl, rfl⟩
    rfl

theorem toList_append_inj {v v' : FixedBytes n} : v.toList ++ ys = v'.toList ++ ys' ↔ v = v' ∧ ys = ys' := by
  rw [append_eq_append_iff_of_length (by simp)]
  constructor
  · rintro ⟨hv, hys⟩
    exact ⟨List.Vector.eq _ _ hv, hys⟩
  · rintro ⟨rfl, rfl⟩
    exact ⟨rfl, rfl⟩

theorem toLe_append_inj (hw : 8 ∣ w) {x y : BitVec w} : toLe x ++ ys = toLe y ++ ys' ↔ x = y ∧ ys = ys' := by
  rw [append_eq_append_iff_of_length (by simp), toLe_inj hw]

/-! ### Reading fields out of a string -/

/-- `len` bytes from position `start` on, or fewer where the string ends. -/
def slice (bs : Bytes) (start len : Nat) : Bytes := (bs.drop start).take len

/-- The `n` bytes from position `start` on, if the string is long enough. -/
def fixedAt (n : Nat) (bs : Bytes) (start : Nat) : Option (FixedBytes n) :=
  if h : (slice bs start n).length = n then some ⟨slice bs start n, h⟩ else none

theorem slice_append_left (h : xs.length = n) : slice (xs ++ ys) 0 n = xs := by
  simp [slice, ← h]

theorem slice_append_right (h : xs.length ≤ start) : slice (xs ++ ys) start n = slice ys (start - xs.length) n := by
  rw [slice, slice, drop_append, drop_eq_nil_of_le h, nil_append]

theorem slice_all (h : xs.length ≤ n) : slice xs 0 n = xs := by
  rw [slice, drop_zero, take_of_length_le h]

theorem length_slice_le (bs : Bytes) (start n : Nat) : (slice bs start n).length ≤ n := by
  simp [slice]

theorem length_slice (h : start + n ≤ bs.length) : (slice bs start n).length = n := by
  simp only [slice, length_take, length_drop]
  omega

/-! ### Blocks of one length -/

section Blocks

variable {α : Type*} {f : α → Bytes} {l l' : List α}

theorem length_flatMap_blocks (h : ∀ a ∈ l, (f a).length = n) : (l.flatMap f).length = l.length * n := by
  rw [length_flatMap, map_congr_left h, map_const', sum_replicate, smul_eq_mul]

theorem slice_flatMap {i : Nat} {a : α} (h : ∀ a ∈ l, (f a).length = n) (ha : l[i]? = some a) :
    slice (l.flatMap f) (i * n) n = f a := by
  induction l generalizing i with
  | nil => cases ha
  | cons first l ih =>
    rw [forall_mem_cons] at h
    rw [flatMap_cons]
    cases i with
    | zero =>
      cases ha
      rw [Nat.zero_mul]
      exact slice_append_left h.1
    | succ i =>
      rw [Nat.succ_mul, slice_append_right (by omega), h.1, Nat.add_sub_cancel]
      exact ih h.2 ha

theorem flatMap_append_inj (hf : ∀ a ∈ l, ∀ b ∈ l', ∀ {ys ys'}, f a ++ ys = f b ++ ys' ↔ a = b ∧ ys = ys')
    (hlen : l.length = l'.length) : l.flatMap f ++ ys = l'.flatMap f ++ ys' ↔ l = l' ∧ ys = ys' := by
  induction l generalizing l' with
  | nil =>
    cases eq_nil_of_length_eq_zero hlen.symm
    simp
  | cons a l ih =>
    cases l' with
    | nil => cases hlen
    | cons b l' =>
      have htail := ih (fun x hx y hy => hf x (mem_cons_of_mem a hx) y (mem_cons_of_mem b hy)) (Nat.succ.inj hlen)
      rw [flatMap_cons, flatMap_cons, List.append_assoc, List.append_assoc, hf a mem_cons_self b mem_cons_self, htail]
      grind

end Blocks

theorem fixedAt_of_slice {v : FixedBytes n} (h : slice bs start n = v.toList) : fixedAt n bs start = some v := by
  have hlen : (slice bs start n).length = n := by rw [h, List.Vector.toList_length]
  have hv : (⟨slice bs start n, hlen⟩ : FixedBytes n) = v := List.Vector.eq _ _ h
  rw [fixedAt, dif_pos hlen]
  exact congrArg some hv

def ascii (text : String) : Bytes := text.toList.map fun c => BitVec.ofNat 8 c.toNat

end ByteCodec

namespace ByteCodec

open List

/-- A reader takes a value off the front of the input, or stops with a message. -/
abbrev Reader := StateT Bytes (Except String)

namespace Reader

variable {α : Type}

/-- The next `n` octets. -/
def take (n : Nat) : Reader Bytes := fun input =>
  if input.length < n then .error "unexpected end of data"
  else .ok (input.take n, input.drop n)

/-- A little-endian machine integer. -/
def uint (w : Nat) : Reader (BitVec w) := do
  let octets ← take (w / 8)
  return ofLe w octets

/-- Exactly `n` octets. -/
def fixed (n : Nat) : Reader (FixedBytes n) := fun input =>
  if h : input.length < n then .error "unexpected end of data"
  else .ok (⟨input.take n, by rw [length_take]; omega⟩, input.drop n)

/-- A byte string behind a 32-bit length. -/
def varBytes : Reader Bytes := do
  let length ← uint 32
  take length.toNat

/-- A `w`-bit length field that may not exceed `max`. -/
def count (w max : Nat) : Reader Nat := do
  let n ← uint w
  if max < n.toNat then throw "decoded count exceeds max"
  else return n.toNat

/-- The same reader, `n` times over. -/
def times (reader : Reader α) : Nat → Reader (List α)
  | 0 => return []
  | n + 1 => do
    let x ← reader
    let xs ← times reader n
    return x :: xs

end Reader

/-- The code word of a byte string of any length. -/
def putVar (bytes : Bytes) : Bytes := toLe (BitVec.ofNat 32 bytes.length) ++ bytes

/-! ### What a reader does on a code word -/

variable {α β : Type}

/-- The reader takes exactly `code` off the input and returns `x`. -/
def Reads (reader : Reader α) (code : Bytes) (x : α) : Prop := ∀ rest, reader.run (code ++ rest) = .ok (x, rest)

theorem Reads.pure (x : α) : Reads (Pure.pure x) [] x := by
  intro rest
  rfl

variable {res : Except String α} {reader : Reader α} {next : α → Reader β} {post : α → Nat → Prop}

variable {f : α → β} {code code' : Bytes} {x : α} {y : β}

theorem Reads.bind (h : Reads reader code x) (h' : Reads (next x) code' y) :
    Reads (reader >>= next) (code ++ code') y := by
  intro rest
  rw [StateT.run_bind, append_assoc, h]
  exact h' rest

theorem Reads.map (h : Reads reader code x) : Reads (reader >>= fun x => Pure.pure (f x)) code (f x) := by
  intro rest
  rw [StateT.run_bind, h]
  rfl

theorem Reads.lift (h : res = .ok x) (h' : Reads (next x) code y) : Reads (liftM res >>= next) code y := by
  intro rest
  rw [h]
  exact h' rest

theorem Reads.decoded (h : Reads reader code x) : (reader.run code).map Prod.fst = .ok x := by
  have hrun := h []
  rw [append_nil] at hrun
  rw [hrun]
  rfl

/-! ### The basic readers -/

theorem reads_take (code : Bytes) : Reads (Reader.take code.length) code code := by
  intro rest
  have hlong : ¬ (code ++ rest).length < code.length := by
    rw [length_append]
    omega
  simp only [Reader.take, StateT.run, if_neg hlong, take_left, drop_left]

theorem reads_uint {w : Nat} (hw : 8 ∣ w) (x : BitVec w) : Reads (Reader.uint w) (toLe x) x := by
  have htake := reads_take (toLe x)
  rw [length_toLe] at htake
  have hmap := htake.map (f := ofLe w)
  rw [ofLe_toLe hw] at hmap
  exact hmap

theorem reads_fixed {n : Nat} (bytes : FixedBytes n) : Reads (Reader.fixed n) bytes.toList bytes := by
  intro rest
  have hlength : bytes.toList.length = n := bytes.toList_length
  have hlong : ¬ (bytes.toList ++ rest).length < n := by
    rw [length_append]
    omega
  have hvalue : (⟨(bytes.toList ++ rest).take n, by rw [length_take]; omega⟩ : FixedBytes n) =
      bytes := List.Vector.eq _ _ (take_left' hlength)
  simp only [Reader.fixed, StateT.run, dif_neg hlong, hvalue, drop_left' hlength]

theorem toNat_lengthField {w n : Nat} (h : n < 2 ^ w) : (BitVec.ofNat w n).toNat = n := by
  rw [BitVec.toNat_ofNat, Nat.mod_eq_of_lt h]

theorem reads_varBytes {bytes : Bytes} (h : bytes.length < 2 ^ 32) : Reads Reader.varBytes (putVar bytes) bytes := by
  refine .bind (reads_uint (by decide) _) ?_
  rw [toNat_lengthField h]
  exact reads_take bytes

theorem reads_count {w max n : Nat} (hw : 8 ∣ w) (hfits : n < 2 ^ w) (hmax : n ≤ max) :
    Reads (Reader.count w max) (toLe (BitVec.ofNat w n)) n := by
  have hread := reads_uint hw (BitVec.ofNat w n)
  intro rest
  rw [Reader.count, StateT.run_bind, hread]
  change (ite (max < (BitVec.ofNat w n).toNat) _ _ : Reader Nat).run rest = _
  rw [toNat_lengthField hfits, if_neg (Nat.not_lt.mpr hmax)]
  rfl

theorem reads_times {encode : α → Bytes} {xs : List α} (h : ∀ x ∈ xs, Reads reader (encode x) x) :
    Reads (reader.times xs.length) (xs.flatMap encode) xs := by
  induction xs with
  | nil => exact Reads.pure []
  | cons x xs ih =>
    rw [flatMap_cons]
    refine .bind (h x mem_cons_self) ?_
    exact (ih fun y hy => h y (mem_cons_of_mem _ hy)).map

/-! ### What a reader returns -/

/-- Whatever the reader returns, with the number of octets that it has taken. -/
def Yields (reader : Reader α) (post : α → Nat → Prop) : Prop :=
  ∀ input x rest, reader.run input = .ok (x, rest) → ∃ used, input.length = used + rest.length ∧ post x used

theorem Yields.pure (h : post x 0) : Yields (Pure.pure x) post := by
  intro input y rest hrun
  cases hrun
  exact ⟨0, by omega, h⟩

theorem Yields.bind {post' : β → Nat → Prop}
    (h : Yields reader post) (h' : ∀ x used, post x used → Yields (next x) fun y used' => post' y (used + used')) :
    Yields (reader >>= next) post' := by
  intro input y rest hrun
  rw [StateT.run_bind] at hrun
  cases hfirst : reader.run input with
  | error msg =>
    rw [hfirst] at hrun
    cases hrun
  | ok res =>
    obtain ⟨x, rest'⟩ := res
    rw [hfirst] at hrun
    obtain ⟨used, hused, hpost⟩ := h input x rest' hfirst
    obtain ⟨used', hused', hpost'⟩ := h' x used hpost rest' y rest hrun
    exact ⟨used + used', by omega, hpost'⟩

theorem Yields.throw (msg : String) :
    Yields (MonadExcept.throw msg : Reader α) post := nofun

theorem Yields.lift (res : Except String α) : Yields (liftM res) fun x used => res = .ok x ∧ used = 0 := by
  intro input x rest hrun
  cases res with
  | error msg => cases hrun
  | ok y =>
    cases hrun
    exact ⟨0, by omega, rfl, rfl⟩

theorem Yields.decoded (h : Yields reader post) {input : Bytes} {x : α}
    (hdecoded : (reader.run input).map Prod.fst = .ok x) : ∃ used ≤ input.length, post x used := by
  cases hrun : reader.run input with
  | error msg =>
    rw [hrun] at hdecoded
    cases hdecoded
  | ok res =>
    rw [hrun] at hdecoded
    cases hdecoded
    obtain ⟨used, hused, hpost⟩ := h input res.1 res.2 hrun
    exact ⟨used, by omega, hpost⟩

theorem yields_take (n : Nat) : Yields (Reader.take n) fun octets used => octets.length = n ∧ used = n := by
  intro input octets rest hrun
  simp only [Reader.take, StateT.run] at hrun
  split at hrun
  · cases hrun
  next hlong =>
    cases hrun
    exact ⟨n, by rw [length_drop]; omega, by rw [length_take]; omega, rfl⟩

theorem yields_uint (w : Nat) : Yields (Reader.uint w) fun _ used => used = w / 8 :=
  (yields_take (w / 8)).bind fun _ _ hoctets => .pure hoctets.2

theorem yields_fixed (n : Nat) : Yields (Reader.fixed n) fun _ used => used = n := by
  intro input octets rest hrun
  simp only [Reader.fixed, StateT.run] at hrun
  split at hrun
  · cases hrun
  next hlong =>
    cases hrun
    exact ⟨n, by rw [length_drop]; omega, rfl⟩

theorem length_putVar (bytes : Bytes) : (putVar bytes).length = 4 + bytes.length := by
  rw [putVar, length_append, length_toLe]

theorem yields_varBytes : Yields Reader.varBytes fun bytes used =>
    bytes.length < 2 ^ 32 ∧ (putVar bytes).length ≤ used := by
  refine (yields_uint 32).bind fun length _ hused => ?_
  intro input bytes rest hrun
  obtain ⟨taken, htaken, hbytes, hlength⟩ := yields_take length.toNat input bytes rest hrun
  exact ⟨taken, htaken, hbytes ▸ length.isLt, by rw [length_putVar]; omega⟩

theorem yields_count (w max : Nat) :
    Yields (Reader.count w max) fun n used => n ≤ max ∧ n < 2 ^ w ∧ used = w / 8 := by
  refine (yields_uint w).bind fun n used hused => ?_
  split
  · exact .throw _
  next hmax => exact .pure ⟨Nat.not_lt.mp hmax, n.isLt, hused⟩

/-- Items that are encoded in no more octets than were taken for them. -/
theorem yields_times {good : α → Prop} {encode : α → Bytes}
    (h : Yields reader fun x used => good x ∧ (encode x).length ≤ used) (n : Nat) :
    Yields (reader.times n) fun xs used => xs.length = n ∧ (∀ x ∈ xs, good x) ∧
      (xs.flatMap encode).length ≤ used := by
  induction n with
  | zero => exact .pure ⟨rfl, by simp, by simp⟩
  | succ n ih =>
    refine h.bind fun x used hx => ih.bind fun xs used' hxs => .pure ?_
    refine ⟨by rw [length_cons, hxs.1], List.forall_mem_cons.mpr ⟨hx.1, hxs.2.1⟩, ?_⟩
    have hlength := hx.2
    have hlength' := hxs.2.2
    rw [flatMap_cons, length_append]
    omega

end ByteCodec
