/-
Module: Pyde.Crypto
Purpose: Machine integers, 32-byte hashes, the FALCON and Poseidon2 entry points every crate calls, and how byte
  strings become field elements before they reach the sponge.
Trusted boundary: Prims, the sponge over field elements
-/
import Pyde.Library.ByteCodec

namespace Pyde

open ByteCodec List

abbrev U8 := BitVec 8
abbrev U16 := BitVec 16
abbrev U32 := BitVec 32
abbrev U64 := BitVec 64
abbrev U128 := BitVec 128

/-- `[u8; 32]` as the output of a hash. -/
abbrev Hash256 := FixedBytes 32

instance : LawfulBEq Hash256 := inferInstance

/-- `[u8; 32]` as an account address. -/
abbrev Address := FixedBytes 32

/-- `[0u8; 32]`. -/
def zero32 : FixedBytes 32 := List.Vector.replicate 32 0

/-- `[b; 32]`. -/
def fill32 (b : U8) : FixedBytes 32 := List.Vector.replicate 32 b

structure FalconPublicKey where
  bytes : Bytes
deriving DecidableEq

structure FalconSecretKey where
  bytes : Bytes
deriving DecidableEq

structure FalconSignature where
  bytes : Bytes
deriving DecidableEq

def FalconPublicKey.size : Nat := 897

/-- A public key is any string of exactly 897 bytes. -/
def FalconPublicKey.fromBytes (bytes : Bytes) : Option FalconPublicKey :=
  if bytes.length = FalconPublicKey.size then some ⟨bytes⟩ else none

/-- Anything outside the 500 to 1000 byte range is not a signature. -/
def FalconSignature.fromBytes (bytes : Bytes) : Option FalconSignature :=
  if 500 ≤ bytes.length ∧ bytes.length ≤ 1000 then some ⟨bytes⟩ else none

/-- The primitives supplied from outside the repository. `falconSign` draws fresh randomness on each
call; the drawn coins are an argument here, and `none` is a signing error. -/
structure Prims where
  poseidon2Hash : Bytes → Hash256
  poseidon2Pair : Hash256 → Hash256 → Hash256
  falconSign : FalconSecretKey → Bytes → Bytes → Option FalconSignature
  falconVerify : FalconPublicKey → Bytes → FalconSignature → Bool

/-- Parse a raw public key and a raw signature, then verify: the sequence of checks repeated at every
place where the code takes a signature off the wire. -/
def Prims.verifyRaw (P : Prims) (publicKey msg signature : Bytes) : Bool :=
  match FalconPublicKey.fromBytes publicKey with
  | none => false
  | some pk =>
    match FalconSignature.fromBytes signature with
    | none => false
    | some sig => P.falconVerify pk msg sig

/-- What `verifyRaw` accepts. -/
theorem Prims.verifyRaw_iff (P : Prims) {publicKey msg signature : Bytes} :
    P.verifyRaw publicKey msg signature = true ↔ publicKey.length = FalconPublicKey.size ∧
        (500 ≤ signature.length ∧ signature.length ≤ 1000) ∧
          P.falconVerify ⟨publicKey⟩ msg ⟨signature⟩ = true := by
  unfold Prims.verifyRaw FalconPublicKey.fromBytes FalconSignature.fromBytes
  by_cases hpk : publicKey.length = FalconPublicKey.size
  · by_cases hsig : 500 ≤ signature.length ∧ signature.length ≤ 1000
    · simp [hpk, hsig]
    · simp [hpk, hsig]
  · simp [hpk]

/-- Poseidon2 does not collide on the listed preimages. No map into 32 bytes is injective on all byte
strings, so the assumption is always made about the strings that one statement has in play. -/
def Prims.CollisionFreeOn (P : Prims) (preimages : Set Bytes) : Prop := Set.InjOn P.poseidon2Hash preimages

/-- No signature of `known` verifies under `publicKey` for two different messages. -/
def Prims.BindsMessage (P : Prims) (publicKey : Bytes) (known : Set Bytes) : Prop :=
  ∀ signature ∈ known, ∀ msg msg', P.verifyRaw publicKey msg signature = true →
      P.verifyRaw publicKey msg' signature = true → msg = msg'

/-! ### A lucid instance

Concrete runs of the model need primitives that evaluate. Here a signature spells out the first byte
of the key and the message, and the hash is the number a string spells modulo a prime. -/

/-- The signature of the lucid scheme under a key that starts with `tag`. -/
def lucidSignature (tag msg : Bytes) : FalconSignature := ⟨tag ++ (msg ++ List.replicate 600 0)⟩

def lucid : Prims where
  poseidon2Hash bs := ⟨leBytes 32 (ofLeBytes (bs ++ [1]) % (2 ^ 256 - 189)), length_leBytes _ _⟩
  poseidon2Pair l r := ⟨leBytes 32 (ofLeBytes (l.toList ++ r.toList) % (2 ^ 256 - 189)), length_leBytes _ _⟩
  falconSign sk msg _ := some (lucidSignature (sk.bytes.take 1) msg)
  falconVerify pk msg sig := decide (sig = lucidSignature (pk.bytes.take 1) msg)

def lucidKey (tag : Byte) : Bytes := List.replicate FalconPublicKey.size tag

theorem lucid_verifyRaw_iff {tag : Byte} {msg signature : Bytes} :
    lucid.verifyRaw (lucidKey tag) msg signature = true ↔
      msg.length ≤ 399 ∧ signature = (lucidSignature [tag] msg).bytes := by
  have htake : (lucidKey tag).take 1 = [tag] := rfl
  have hkey : (lucidKey tag).length = FalconPublicKey.size := by simp [lucidKey]
  rw [Prims.verifyRaw_iff]
  simp only [lucid, htake, decide_eq_true_eq]
  constructor
  · rintro ⟨_, hlen, hsig⟩
    have hsig' : signature = (lucidSignature [tag] msg).bytes := congrArg FalconSignature.bytes hsig
    rw [hsig'] at hlen
    simp only [lucidSignature, length_append, length_replicate, length_cons, length_nil] at hlen
    exact ⟨by omega, hsig'⟩
  · rintro ⟨hlen, rfl⟩
    refine ⟨hkey, ?_, rfl⟩
    simp only [lucidSignature, length_append, length_replicate, length_cons, length_nil]
    omega

theorem lucid_bindsMessage (tag : Byte) (known : Set Bytes) :
    lucid.BindsMessage (lucidKey tag) known := by
  intro signature _ msg msg' hmsg hmsg'
  rw [lucid_verifyRaw_iff] at hmsg hmsg'
  exact append_cancel_right (append_cancel_left (hmsg.2.symm.trans hmsg'.2))

end Pyde

namespace Pyde

open ByteCodec Nat

/-! ### Field elements -/

/-- The order of the Goldilocks field. -/
def goldilocksOrder : Nat := 2 ^ 64 - 2 ^ 32 + 1

/-- A field element by its canonical representative. -/
abbrev Goldilocks := Fin goldilocksOrder

/-- `u64_to_goldilocks`: values from the order on are reduced. -/
def u64ToGoldilocks (v : U64) : Goldilocks := ⟨v.toNat % goldilocksOrder, mod_lt _ (by decide)⟩

/-- The element of one chunk of at most seven bytes, padded with zeros to eight. -/
def chunkToElement (chunk : Bytes) : Goldilocks :=
  u64ToGoldilocks (ofLe 64 (chunk ++ List.replicate (8 - chunk.length) 0))

/-- The elements of the first `count` chunks. -/
def chunksToElements : Nat → Bytes → List Goldilocks
  | 0, _ => []
  | count + 1, data => chunkToElement (data.take 7) :: chunksToElements count (data.drop 7)

/-- `bytes_to_elements`. The length comes last; the empty string has none. -/
def bytesToElements (data : Bytes) : List Goldilocks :=
  if data = [] then [u64ToGoldilocks 0]
  else chunksToElements ((data.length + 6) / 7) data ++ [u64ToGoldilocks (BitVec.ofNat 64 data.length)]

/-- `hash256_to_elements`: four elements of eight bytes each. -/
def hash256ToElements (hash : Hash256) : List Goldilocks :=
  (List.range 4).map fun i => u64ToGoldilocks (ofLe 64 ((hash.toList.drop (8 * i)).take 8))

def elementsToHash (elements : List.Vector Goldilocks 4) : Hash256 :=
  ⟨elements.toList.flatMap fun el => toLe (BitVec.ofNat 64 el.val), by
    rw [List.length_flatMap, List.map_congr_left fun el _ => length_toLe (BitVec.ofNat 64 el.val),
      List.map_const', elements.toList_length]
    decide⟩

/-! ### The entry points -/

section

variable (sponge : List Goldilocks → List.Vector Goldilocks 4)

def poseidon2Hash (data : Bytes) : Hash256 := elementsToHash (sponge (bytesToElements data))

def poseidon2Pair (left right : Hash256) : Hash256 :=
  elementsToHash (sponge (hash256ToElements left ++ hash256ToElements right))

def poseidon2Many (hashes : List Hash256) : Hash256 := elementsToHash (sponge (hashes.flatMap hash256ToElements))

def Prims.withSponge (P : Prims) : Prims :=
  { P with poseidon2Hash := Pyde.poseidon2Hash sponge, poseidon2Pair := Pyde.poseidon2Pair sponge }

end

/-- A sponge that can be evaluated: the sum of the elements, weighted by their position. -/
def weightedSponge (elements : List Goldilocks) : List.Vector Goldilocks 4 :=
  ⟨[u64ToGoldilocks (BitVec.ofNat 64 (elements.foldr (fun el acc => el.val + 3 * acc) 0)), ⟨0, by decide⟩,
    ⟨0, by decide⟩, ⟨0, by decide⟩], rfl⟩

/-! ### Packing loses nothing -/

theorem ofLeBytes_append_zeros (bs : Bytes) (k : Nat) : ofLeBytes (bs ++ List.replicate k 0) = ofLeBytes bs := by
  induction bs with
  | nil =>
    induction k with
    | zero => rfl
    | succ k ih =>
      rw [List.nil_append] at ih ⊢
      change 0 + 256 * ofLeBytes (List.replicate k 0) = 0
      rw [ih]
      rfl
  | cons b bs ih => rw [List.cons_append, ofLeBytes, ofLeBytes, ih]

theorem chunkToElement_val {chunk : Bytes} (h : chunk.length ≤ 7) : (chunkToElement chunk).val = ofLeBytes chunk := by
  have hlt : ofLeBytes chunk < 256 ^ 7 := Nat.lt_of_lt_of_le (ofLeBytes_lt chunk) (Nat.pow_le_pow_right (by decide) h)
  have hword : (256 : Nat) ^ 7 < 2 ^ 64 := by decide
  have horder : (256 : Nat) ^ 7 < goldilocksOrder := by decide
  unfold chunkToElement u64ToGoldilocks ofLe
  dsimp only
  rw [BitVec.toNat_ofNat, ofLeBytes_append_zeros, mod_eq_of_lt (Nat.lt_trans hlt hword),
    mod_eq_of_lt (Nat.lt_trans hlt horder)]

theorem chunkToElement_inj {chunk chunk' : Bytes} (hlen : chunk.length = chunk'.length) (h7 : chunk.length ≤ 7) :
    chunkToElement chunk = chunkToElement chunk' ↔ chunk = chunk' := by
  constructor
  · intro h
    have hval := congrArg Fin.val h
    rw [chunkToElement_val h7, chunkToElement_val (hlen ▸ h7)] at hval
    rw [← leBytes_ofLeBytes chunk, hval, hlen, leBytes_ofLeBytes]
  · rintro rfl
    rfl

theorem length_chunksToElements (count : Nat) (data : Bytes) : (chunksToElements count data).length = count := by
  induction count generalizing data with
  | zero => rfl
  | succ count ih => rw [chunksToElements, List.length_cons, ih]

theorem chunksToElements_inj {count : Nat} {data data' : Bytes} (hlen : data.length = data'.length)
    (hcover : data.length ≤ 7 * count) (h : chunksToElements count data = chunksToElements count data') :
    data = data' := by
  induction count generalizing data data' with
  | zero =>
    have hnil : data = [] := List.eq_nil_of_length_eq_zero (by omega)
    have hnil' : data' = [] := List.eq_nil_of_length_eq_zero (by omega)
    rw [hnil, hnil']
  | succ count ih =>
    rw [chunksToElements, chunksToElements, List.cons.injEq] at h
    have htake : data.take 7 = data'.take 7 := by
      apply (chunkToElement_inj _ _).mp h.1
      · rw [List.length_take, List.length_take, hlen]
      · exact List.length_take_le 7 data
    have hdrop : data.drop 7 = data'.drop 7 := by
      apply ih _ _ h.2
      · rw [List.length_drop, List.length_drop, hlen]
      · rw [List.length_drop]
        omega
    rw [← List.take_append_drop 7 data, htake, hdrop, List.take_append_drop]

/-- A length that fits in memory is below the order of the field. -/
theorem lengthElement_val {n : Nat} (h : n < 2 ^ 63) : (u64ToGoldilocks (BitVec.ofNat 64 n)).val = n := by
  have horder : n < goldilocksOrder := Nat.lt_trans h (by decide)
  have hword : n < 2 ^ 64 := Nat.lt_trans h (by decide)
  unfold u64ToGoldilocks
  dsimp only
  rw [BitVec.toNat_ofNat, mod_eq_of_lt hword, mod_eq_of_lt horder]

/-- No vector holds more than `isize::MAX` bytes, and on such strings the packing is injective. -/
theorem bytesToElements_inj {data data' : Bytes} (hsize : data.length < 2 ^ 63) (hsize' : data'.length < 2 ^ 63)
    (h : bytesToElements data = bytesToElements data') : data = data' := by
  -- only the empty string has a single element
  have hcount : ∀ {d : Bytes}, d ≠ [] →
      2 ≤ (chunksToElements ((d.length + 6) / 7) d ++ [u64ToGoldilocks (BitVec.ofNat 64 d.length)]).length := by
    intro d hd
    have hpos := List.length_pos_iff.mpr hd
    rw [List.length_append, length_chunksToElements, List.length_singleton]
    omega
  unfold bytesToElements at h
  split at h
  next hnil =>
    split at h
    next hnil' => rw [hnil, hnil']
    next hne' =>
      have hlen := hcount hne'
      rw [← h, List.length_singleton] at hlen
      omega
  next hne =>
    split at h
    next hnil' =>
      have hlen := hcount hne
      rw [h, List.length_singleton] at hlen
      omega
    rename_i hne'
    obtain ⟨hchunks, hlast⟩ := List.append_inj' h rfl
    have hlen : data.length = data'.length := by
      have hval := congrArg Fin.val (List.singleton_inj.mp hlast)
      rwa [lengthElement_val hsize, lengthElement_val hsize'] at hval
    rw [← hlen] at hchunks
    exact chunksToElements_inj hlen (by omega) hchunks

/-! ### Hashes -/

theorem toLe_ofNat_val_inj {a b : Goldilocks} (h : BitVec.ofNat 64 a.val = BitVec.ofNat 64 b.val) : a = b := by
  have horder : goldilocksOrder < 2 ^ 64 := by decide
  have hval := congrArg BitVec.toNat h
  rw [BitVec.toNat_ofNat, BitVec.toNat_ofNat, mod_eq_of_lt (Nat.lt_trans a.isLt horder),
    mod_eq_of_lt (Nat.lt_trans b.isLt horder)] at hval
  exact Fin.ext hval

theorem elementsToHash_inj {a b : List.Vector Goldilocks 4} (h : elementsToHash a = elementsToHash b) : a = b := by
  have hbytes := congrArg (List.Vector.toList · ++ []) h
  have hlen : a.toList.length = b.toList.length := by rw [a.toList_length, b.toList_length]
  apply List.Vector.toList_injective
  refine ((flatMap_append_inj (fun x _ y _ => ?_) hlen).mp hbytes).1
  intro ys ys'
  exact (toLe_append_inj (by decide)).trans (and_congr_left' ⟨toLe_ofNat_val_inj, fun hxy => by rw [hxy]⟩)

/-- A hash that comes from elements is read back as these elements. -/
theorem hash256ToElements_elementsToHash (elements : List.Vector Goldilocks 4) :
    hash256ToElements (elementsToHash elements) = elements.toList := by
  have hread : ∀ list : List Goldilocks, ((List.range list.length).map fun i => u64ToGoldilocks
      (ofLe 64 (((list.flatMap fun el => toLe (BitVec.ofNat 64 el.val)).drop (8 * i)).take 8))) = list := by
    intro list
    induction list with
    | nil => rfl
    | cons el list ih =>
      have hlength : (toLe (BitVec.ofNat 64 el.val)).length = 8 := length_toLe _
      have hhead : u64ToGoldilocks (BitVec.ofNat 64 el.val) = el := by
        have hword : el.val < 2 ^ 64 := Nat.lt_trans el.isLt (by decide)
        apply Fin.ext
        unfold u64ToGoldilocks
        dsimp only
        rw [BitVec.toNat_ofNat, mod_eq_of_lt hword, mod_eq_of_lt el.isLt]
      rw [List.length_cons, List.range_succ_eq_map, List.map_cons, List.map_map, List.flatMap_cons, Nat.mul_zero,
        List.drop_zero, List.take_left' hlength, ofLe_toLe (by decide), hhead]
      refine congrArg (el :: ·) (Eq.trans (List.map_congr_left fun i _ => ?_) ih)
      rw [Function.comp_apply, mul_succ, Nat.add_comm, ← List.drop_drop, List.drop_left' hlength]
  have hfour := hread elements.toList
  rw [elements.toList_length] at hfour
  exact hfour

/-- The hash of the same elements with every element below the order of the field. -/
def canonical (hash : Hash256) : Hash256 :=
  elementsToHash ⟨hash256ToElements hash, by rw [hash256ToElements, List.length_map, List.length_range]⟩

@[simp] theorem hash256ToElements_canonical (hash : Hash256) :
    hash256ToElements (canonical hash) = hash256ToElements hash :=
  hash256ToElements_elementsToHash _

theorem canonical_congr {hash hash' : Hash256} (h : hash256ToElements hash = hash256ToElements hash') :
    canonical hash = canonical hash' :=
  congrArg elementsToHash (List.Vector.toList_injective h)

@[simp] theorem canonical_elementsToHash (elements : List.Vector Goldilocks 4) :
    canonical (elementsToHash elements) = elementsToHash elements :=
  congrArg elementsToHash (List.Vector.toList_injective (hash256ToElements_elementsToHash elements))

@[simp] theorem canonical_canonical (hash : Hash256) : canonical (canonical hash) = canonical hash :=
  canonical_elementsToHash _

/-- A sponge without collisions on the packed strings has none on the strings. -/
theorem Prims.collisionFreeOn_withSponge {sponge : List Goldilocks → List.Vector Goldilocks 4}
    {preimages : Set Bytes} (hfree : Set.InjOn sponge (bytesToElements '' preimages))
    (hsize : ∀ data ∈ preimages, data.length < 2 ^ 63) (P : Prims) :
    (P.withSponge sponge).CollisionFreeOn preimages := by
  intro data hdata data' hdata' heq
  have helements : bytesToElements data = bytesToElements data' :=
    hfree (Set.mem_image_of_mem _ hdata) (Set.mem_image_of_mem _ hdata') (elementsToHash_inj heq)
  exact bytesToElements_inj (hsize data hdata) (hsize data' hdata') helements

end Pyde
