import Vanadium.Lib.HdKeys
import Vanadium.Proofs.Curve

/-!
# What a derivation step computes

A step hashes what BIP-32 says, and adds what BIP-32 says. Where it differs is in what
it refuses: a left half of zero, although the child would be the parent's key under
another chain code, and of the left halves that are too large only the order itself.
A larger one is left to the addition, which may refuse it too, or reduce it.

The group, its generator and the points that its elements are, are parameters, and so
is the hash.
-/

namespace Vanadium.AppSdk

open Lib Secp256k1

namespace HDPrivNode

/-- The group order. -/
def n : ℕ := 0xFFFFFFFFFFFFFFFFFFFFFFFFFFFFFFFEBAAEDCE6AF48A03BBFD25E8CD0364141

theorem value_ORDER : value SECP256K1_ORDER = n := value_hex32 (by decide)

/-- The multiples of the generator are those of an element `g` of order `n`, and what is below
`n` is added modulo `n`; what is not may be reduced or refused. -/
structure Computes {G : Type} [AddCommGroup G] (ecalls : Ecalls) (g : G)
    (point : G → AffinePoint) : Prop where
  order : addOrderOf g = n
  mult : ∀ k, 0 < value k → value k < n →
    ecalls.ecfp_scalar_mult get_generator k = some (point (value k • g)).key.public_key
  addm : ∀ a b r, ecalls.bn_addm a b SECP256K1_ORDER = some r →
    value r = (value a + value b) % n
  addm_below : ∀ a b, value a < n → value b < n →
    ∃ r, ecalls.bn_addm a b SECP256K1_ORDER = some r

section Step

variable {G : Type} [AddCommGroup G] {ecalls : Ecalls} {g : G} {point : G → AffinePoint}

/-- The keys of BIP-32: numbers are 32 bytes and indices four, the most significant first, points
are compressed, and the hash is HMAC-SHA512, of which the left half is read as a number. -/
def scheme (hec : Computes ecalls g point) : KeyScheme G Bytes where
  generator := g
  order := n
  order_eq := hec.order
  order_pos := by decide
  ser_scalar k := (hex32 k).toList
  ser_point P := (point P).sec1.toList
  ser_index i := (LittleEndian.write 4 i.toNat).reverse
  prf chain data :=
    let I := hmac (fun message => (ecalls.sha512 message).toList) 128 chain data
    (LittleEndian.read (I.take 32).reverse, I.drop 32)

variable (hec : Computes ecalls g point)

/-- A node whose key is in range, as BIP-32 has it. -/
def spec (node : HDPrivNode) (hnode : 0 < value node.privkey ∧ value node.privkey < n) :
    (scheme hec).PrivNode where
  key := value node.privkey
  key_pos := hnode.1
  key_lt := hnode.2
  chain := node.chaincode.toList

@[simp] theorem scheme_generator : (scheme hec).generator = g := rfl

@[simp] theorem scheme_ser_point (P : G) :
    (scheme hec).ser_point P = (point P).sec1.toList := by
  simp only [scheme]

@[simp] theorem spec_key (node : HDPrivNode)
    (hnode : 0 < value node.privkey ∧ value node.privkey < n) :
    (spec hec node hnode).key = value node.privkey := rfl

/-! ## The hash -/

theorem to_be_bytes_eq (i : U32) : to_be_bytes i = (LittleEndian.write 4 i.toNat).reverse := by
  have hbyte : ∀ s m, 2 ^ s = m → i.extractLsb' s 8 = BitVec.ofNat 8 (i.toNat / m) := by
    rintro s m rfl
    refine BitVec.eq_of_toNat_eq ?_
    rw [BitVec.extractLsb'_toNat, Nat.shiftRight_eq_div_pow, BitVec.toNat_ofNat]
  rw [to_be_bytes, hbyte 24 16777216 rfl, hbyte 16 65536 rfl, hbyte 8 256 rfl, hbyte 0 1 rfl]
  simp only [LittleEndian.write, Nat.div_div_eq_div_mul, Nat.div_one, List.reverse_cons,
    List.reverse_nil, List.nil_append, List.cons_append]

theorem pad_eq (key : Vector U8 32) (byte : U8) :
    (List.ofFn fun i : Fin 128 => if h : i.val < 32 then byte ^^^ key[i] else byte) =
      (key.toList ++ List.replicate (128 - key.toList.length) 0).map (byte ^^^ ·) := by
  have hlength : key.toList.length = 32 := Vector.length_toList
  refine List.ext_getElem ?_ fun i hi hi' => ?_
  · rw [List.length_ofFn, List.length_map, List.length_append, List.length_replicate, hlength]
  · rw [List.getElem_ofFn, List.getElem_map, List.getElem_append]
    split
    · next hlt =>
        rw [dif_pos (hlt.trans_eq hlength.symm)]
        rfl
    · next hge =>
        rw [dif_neg fun h => hge (h.trans_eq hlength), List.getElem_replicate]
        exact BitVec.xor_zero.symm

theorem hmac_sha512_eq (key : Vector U8 32) (data1 data2 : Bytes) :
    (hmac_sha512 ecalls key data1 data2).toList =
      hmac (fun message => (ecalls.sha512 message).toList) 128 key.toList (data1 ++ data2) := by
  have hlength : key.toList.length ≤ 128 := by rw [Vector.length_toList]; decide
  simp only [hmac_sha512, hmac, pad_eq, if_pos hlength, List.append_assoc]

/-! ## The step -/

include hec in
theorem to_public_key_eq {k : Vector U8 32} (hk : 0 < value k ∧ value k < n) :
    (EcfpPrivateKey.mk k).to_public_key ecalls () = .ok (point (value k • g)).key () :=
  Exec.unwrap_bind_some (hec.mult k hk.1 hk.2)

/-- What is hashed begins with the key or with its public key. -/
theorem prefix_data_eq {node : HDPrivNode}
    (hnode : 0 < value node.privkey ∧ value node.privkey < n) (child : U32) :
    ∃ bytes : Vector U8 33,
      ckd_priv.prefix_data ecalls node (child ≥ 0x80000000) () = .ok bytes () ∧
      bytes.toList ++ to_be_bytes child = (spec hec node hnode).data child := by
  have hindex : (scheme hec).ser_index child = to_be_bytes child := (to_be_bytes_eq child).symm
  have hscalar : (scheme hec).ser_scalar (spec hec node hnode).key = node.privkey.toList := by
    show (hex32 (value node.privkey)).toList = _
    rw [hex32_value]
  have hpoint : (scheme hec).ser_point
      ((spec hec node hnode).key • (scheme hec).generator) =
        (point (value node.privkey • g)).sec1.toList := by
    rw [scheme_ser_point, scheme_generator, spec_key]
  rw [KeyScheme.PrivNode.data, hindex]
  by_cases hhard : child ≥ 0x80000000
  · refine ⟨#v[(0x00 : U8)] ++ node.privkey, ?_, ?_⟩
    · rw [ckd_priv.prefix_data, if_pos hhard]
      rfl
    · rw [if_pos (show KeyScheme.hardened child from hhard), cons_toList, hscalar]
  · refine ⟨(point (value node.privkey • g)).sec1, ?_, ?_⟩
    · rw [ckd_priv.prefix_data, if_neg hhard, Exec.bind_apply_ok (to_public_key_eq hec hnode),
        ← compressed_bytes_key, EcfpPublicKey.compressed_bytes, BitVec.add_comm]
      rfl
    · rw [if_neg (show ¬ KeyScheme.hardened child from hhard), hpoint]

variable (node : HDPrivNode) (hnode : 0 < value node.privkey ∧ value node.privkey < n)
  (child : U32)

/-- The number and the chain code that a step's hash gives. -/
def step_hash : ℕ × Bytes :=
  (scheme hec).prf node.chaincode.toList ((spec hec node hnode).data child)

/-- What is left of a step after the hash. -/
def finish (ecalls : Ecalls) (privkey tweak new_chaincode : Vector U8 32) :
    Exec String Unit HDPrivNode := do
  Exec.reject (tweak = Vector.replicate 32 0 ∨ tweak = SECP256K1_ORDER) "invalid tweak"
  let child_privkey ←
    Exec.orElse (ecalls.bn_addm privkey tweak SECP256K1_ORDER) "key derivation failed"
  Exec.reject (child_privkey = Vector.replicate 32 0) "derived child key is the zero scalar"
  pure { chaincode := new_chaincode, privkey := child_privkey }

theorem ckd_priv_eq : ∃ tweak new_chaincode : Vector U8 32,
    value tweak = (step_hash hec node hnode child).1 ∧
    new_chaincode.toList = (step_hash hec node hnode child).2 ∧
    ckd_priv ecalls node child () = finish ecalls node.privkey tweak new_chaincode () := by
  obtain ⟨bytes, hbytes, hdata⟩ := prefix_data_eq hec hnode child
  have hhash := @hmac_sha512_eq ecalls node.chaincode bytes.toList (to_be_bytes child)
  rw [hdata] at hhash
  refine ⟨(hmac_sha512 ecalls node.chaincode bytes.toList (to_be_bytes child)).take 32,
    (hmac_sha512 ecalls node.chaincode bytes.toList (to_be_bytes child)).drop 32, ?_, ?_, ?_⟩
  · rw [value, BigNum.value, BigNum.low, List.drop_zero, Vector.toList_take, hhash]
    simp only [step_hash, scheme]
  · rw [Vector.toList_drop, hhash]
    simp only [step_hash, scheme]
  · exact Exec.bind_apply_ok hbytes

theorem finish_ok {privkey tweak new_chaincode : Vector U8 32} {result : HDPrivNode} :
    finish ecalls privkey tweak new_chaincode () = .ok result () ↔
      value tweak ≠ 0 ∧ value tweak ≠ n ∧
        ecalls.bn_addm privkey tweak SECP256K1_ORDER = some result.privkey ∧
        value result.privkey ≠ 0 ∧ result.chaincode = new_chaincode := by
  obtain ⟨chaincode, key⟩ := result
  have horder : tweak = SECP256K1_ORDER ↔ value tweak = n := by
    rw [← value_ORDER]
    exact value_injective.eq_iff.symm
  rw [finish, Exec.reject_bind_ok, Exec.orElse_bind_ok, eq_zero_iff, horder, not_or, and_assoc]
  refine and_congr_right fun _ => and_congr_right fun _ => ?_
  refine ⟨fun ⟨r, hr, h⟩ => ?_, fun ⟨hr, hne, hchain⟩ => ⟨key, hr, ?_⟩⟩
  · rw [Exec.reject_bind_ok, eq_zero_iff] at h
    obtain ⟨hne, h⟩ := h
    cases h
    exact ⟨hr, hne, rfl⟩
  · rw [Exec.reject_bind_ok, eq_zero_iff, ← hchain]
    exact ⟨hne, rfl⟩

/-- It returns or fails. -/
theorem finish_err {privkey tweak new_chaincode : Vector U8 32}
    (h : ∀ result, finish ecalls privkey tweak new_chaincode () ≠ .ok result ()) :
    ∃ e, finish ecalls privkey tweak new_chaincode () = .err e () := by
  rw [finish] at h ⊢
  by_cases hinvalid : tweak = Vector.replicate 32 0 ∨ tweak = SECP256K1_ORDER
  · exact ⟨_, Exec.reject_bind_pos hinvalid⟩
  · rw [Exec.reject_bind_neg hinvalid] at h ⊢
    cases hsum : ecalls.bn_addm privkey tweak SECP256K1_ORDER with
    | none => exact ⟨_, Exec.orElse_bind_none rfl⟩
    | some r =>
        rw [Exec.orElse_bind_some hsum] at h
        rw [Exec.orElse_bind_some rfl]
        by_cases hzero : r = Vector.replicate 32 0
        · exact ⟨_, Exec.reject_bind_pos hzero⟩
        · rw [Exec.reject_bind_neg hzero] at h
          exact absurd rfl (h _)

/-- The calls refuse to add what is not below the order. -/
def Refuses (ecalls : Ecalls) : Prop :=
  ∀ a b, n ≤ value b → ecalls.bn_addm a b SECP256K1_ORDER = none

/-- The bytes of a node of BIP-32. -/
def Stands (node : HDPrivNode) (child : (scheme hec).PrivNode) : Prop :=
  value node.privkey = child.key ∧ node.chaincode.toList = child.chain

theorem ckd_priv_ok
    (hleft : (step_hash hec node hnode child).1 ≤ n ∨ Refuses ecalls) (result : HDPrivNode) :
    ckd_priv ecalls node child () = .ok result () ↔
      (step_hash hec node hnode child).1 ≠ 0 ∧
        ∃ c, (spec hec node hnode).child child = some c ∧ Stands hec result c := by
  obtain ⟨tweak, new_chaincode, htweak, hchain, heq⟩ := ckd_priv_eq hec node hnode child
  have hchild : ∀ c, (spec hec node hnode).child child = some c ↔
      value tweak < n ∧ c.key = (value tweak + value node.privkey) % n ∧
        c.chain = new_chaincode.toList := by
    intro c
    rw [htweak, hchain]
    exact KeyScheme.add_eq_some_iff
  rw [← htweak] at hleft ⊢
  rw [heq, finish_ok]
  refine ⟨fun ⟨hzero, horder, hsum, hne, hc⟩ => ⟨hzero, ?_⟩, fun ⟨hzero, c, hc, hstands⟩ => ?_⟩
  · have hlt : value tweak < n := by
      rcases hleft with hle | hrefuses
      · exact lt_of_le_of_ne hle horder
      · by_contra hge
        rw [hrefuses _ _ (not_lt.mp hge)] at hsum
        cases hsum
    have hkey := hec.addm _ _ _ hsum
    have hlt' : value result.privkey < n := hkey ▸ Nat.mod_lt _ (by decide)
    refine ⟨⟨value result.privkey, Nat.pos_of_ne_zero hne, hlt', new_chaincode.toList⟩, ?_, rfl, ?_⟩
    · rw [hchild, Nat.add_comm (value tweak)]
      exact ⟨hlt, hkey, rfl⟩
    · rw [hc]
  · obtain ⟨hlt, hkey, hchain'⟩ := (hchild c).mp hc
    obtain ⟨r, hr⟩ := hec.addm_below node.privkey tweak hnode.2 hlt
    have hvalue := hec.addm _ _ _ hr
    have hsame : r = result.privkey := by
      refine value_injective ?_
      rw [hvalue, hstands.1, hkey, Nat.add_comm]
    refine ⟨hzero, hlt.ne, hsame ▸ hr, ?_, ?_⟩
    · rw [hstands.1]
      exact c.key_pos.ne'
    · exact Vector.toList_inj.mp (hstands.2.trans hchain')

include hec hnode in
theorem ckd_priv_err (h : ∀ result, ckd_priv ecalls node child () ≠ .ok result ()) :
    ∃ e, ckd_priv ecalls node child () = .err e () := by
  obtain ⟨_, _, _, _, heq⟩ := ckd_priv_eq hec node hnode child
  rw [heq] at h ⊢
  exact finish_err h

theorem exists_stands {c : (scheme hec).PrivNode}
    (hc : (spec hec node hnode).child child = some c) : ∃ result, Stands hec result c := by
  obtain ⟨_, new_chaincode, _, hchain, _⟩ := ckd_priv_eq hec node hnode child
  have hlt : c.key < 256 ^ 32 := c.key_lt.trans (show n < 256 ^ 32 by decide)
  have hcode : c.chain = new_chaincode.toList := by
    rw [hchain]
    exact (KeyScheme.add_eq_some_iff.mp hc).2.2
  exact ⟨⟨new_chaincode, hex32 c.key⟩, value_hex32 hlt, hcode.symm⟩

theorem child_eq_none_iff : (spec hec node hnode).child child = none ↔
    n ≤ (step_hash hec node hnode child).1 ∨
      ((step_hash hec node hnode child).1 + value node.privkey) % n = 0 :=
  KeyScheme.add_eq_none_iff

/-- When a step fails. -/
theorem ckd_priv_err_iff (hleft : (step_hash hec node hnode child).1 ≤ n ∨ Refuses ecalls) :
    (∃ e, ckd_priv ecalls node child () = .err e ()) ↔
      (step_hash hec node hnode child).1 = 0 ∨ n ≤ (step_hash hec node hnode child).1 ∨
        ((step_hash hec node hnode child).1 + value node.privkey) % n = 0 := by
  rw [← child_eq_none_iff]
  have hok := ckd_priv_ok hec node hnode child hleft
  refine ⟨fun ⟨e, he⟩ => ?_, fun h => ckd_priv_err hec node hnode child fun result hresult => ?_⟩
  · by_contra hvalid
    rw [not_or] at hvalid
    obtain ⟨c, hc⟩ := Option.ne_none_iff_exists'.mp hvalid.2
    obtain ⟨result, hstands⟩ := exists_stands hec node hnode child hc
    rw [(hok result).mpr ⟨hvalid.1, c, hc, hstands⟩] at he
    cases he
  · obtain ⟨hzero, c, hc, _⟩ := (hok result).mp hresult
    rw [h.resolve_left hzero] at hc
    cases hc

/-- A left half above the order is refused by the addition or not at all. -/
theorem large_left_accepted (hlarge : n < (step_hash hec node hnode child).1)
    (hrefuses : ∀ a b, ecalls.bn_addm a b SECP256K1_ORDER ≠ none)
    (hnonzero : ((step_hash hec node hnode child).1 + value node.privkey) % n ≠ 0) :
    ∃ result, ckd_priv ecalls node child () = .ok result () := by
  obtain ⟨tweak, new_chaincode, htweak, _, heq⟩ := ckd_priv_eq hec node hnode child
  rw [← htweak] at hlarge hnonzero
  obtain ⟨r, hr⟩ := Option.ne_none_iff_exists'.mp (hrefuses node.privkey tweak)
  refine ⟨⟨new_chaincode, r⟩, ?_⟩
  rw [heq, finish_ok]
  refine ⟨?_, hlarge.ne', hr, ?_, rfl⟩
  · exact (Nat.zero_lt_of_lt hlarge).ne'
  · rwa [hec.addm _ _ _ hr, Nat.add_comm]

end Step

/-- Where the left half is not above the order, or the addition refuses what is, a step is that
of BIP-32, except that it also fails where the left half is zero. Deriving publicly and deriving
privately commute. -/
theorem ckd_priv_derives {G : Type} [AddCommGroup G] (ecalls : Ecalls) (g : G)
    (point : G → AffinePoint) (hec : Computes ecalls g point) (node : HDPrivNode)
    (hnode : 0 < value node.privkey ∧ value node.privkey < n) (child : U32)
    (hleft : (step_hash hec node hnode child).1 ≤ n ∨ Refuses ecalls) :
    (∀ result, ckd_priv ecalls node child () = .ok result () ↔
      (step_hash hec node hnode child).1 ≠ 0 ∧
        ∃ c, (spec hec node hnode).child child = some c ∧ Stands hec result c) ∧
    ((∃ e, ckd_priv ecalls node child () = .err e ()) ↔
      (step_hash hec node hnode child).1 = 0 ∨ n ≤ (step_hash hec node hnode child).1 ∨
        ((step_hash hec node hnode child).1 + value node.privkey) % n = 0) ∧
    (¬ KeyScheme.hardened child → (step_hash hec node hnode child).1 ≠ 0 →
      ∀ K, (spec hec node hnode).neuter.child (scheme hec) child = some K ↔
        ∃ result c, ckd_priv ecalls node child () = .ok result () ∧ Stands hec result c ∧
          K = c.neuter) := by
  have hok := ckd_priv_ok hec node hnode child hleft
  refine ⟨hok, ckd_priv_err_iff hec node hnode child hleft, fun hsoft hzero K => ?_⟩
  rw [KeyScheme.neuter_child _ hsoft, Option.map_eq_some_iff]
  refine ⟨fun ⟨c, hc, hK⟩ => ?_, fun ⟨result, c, hresult, hstands, hK⟩ => ⟨c, ?_, hK.symm⟩⟩
  · obtain ⟨result, hstands⟩ := exists_stands hec node hnode child hc
    exact ⟨result, c, (hok result).mpr ⟨hzero, c, hc, hstands⟩, hstands, hK.symm⟩
  · obtain ⟨_, c', hc', hstands'⟩ := (hok result).mp hresult
    obtain rfl : c' = c := KeyScheme.PrivNode.ext (hstands'.1.symm.trans hstands.1)
      (hstands'.2.symm.trans hstands.2)
    exact hc'

/-! ## One node -/

def generator_point : AffinePoint where
  x := 0x79BE667EF9DCBBAC55A06295CE870B07029BFCDB2DCE28D959F2815B16F81798
  y := 0x483ADA7726A3C4655DA4FBFC0E1108A8FD17B448A68554199C47D08FFB10D4B8
  on_curve := by decide +kernel

/-- The 64 bytes of a digest. -/
def digest (left right : ℕ) : Vector U8 64 := hex32 left ++ hex32 right

/-- What the VM answers about the key 1. The two messages that are hashed are 165 and 192 bytes
long. -/
def one_ecalls (inner outer : Vector U8 64) : Ecalls where
  bn_addm a b m :=
    if value a < value m ∧ value b < value m then some (hex32 ((value a + value b) % value m))
    else none
  bn_multm a b m := some (hex32 (value a * value b % value m))
  bn_powm _ _ _ := none
  ecfp_scalar_mult _ _ := some get_generator
  derive_hd_node path := if path = [] then some ⟨Vector.replicate 32 0, hex32 1⟩ else none
  get_master_fingerprint := 0x751E76E8
  sha256 _ := hex32 0x0F715BAF5D4C2ED329785CEF29E562F73488C8A2BB9DBC5700B361D54B9B0554
  ripemd160 _ := ((hex32 0x751E76E8199196D454941C45D1B3A323F1433BD6).drop 12 :)
  sha512 message := if message.length = 192 then outer else inner

theorem one_computes (inner outer : Vector U8 64) :
    Computes (one_ecalls inner outer) (1 : ZMod n) fun _ => generator_point := by
  have hsum : ∀ m, value (hex32 (m % n)) = m % n := fun m =>
    value_hex32 ((Nat.mod_lt m (show 0 < n by decide)).trans (by decide))
  refine ⟨ZMod.addOrderOf_one n, fun k _ _ => ?_, fun a b r h => ?_, fun a b ha hb => ?_⟩
  · exact congrArg some (by decide +kernel : get_generator = generator_point.key.public_key)
  · simp only [one_ecalls, value_ORDER] at h
    split at h
    · obtain rfl := Option.some.inj h
      exact hsum _
    · cases h
  · simp only [one_ecalls, value_ORDER]
    rw [if_pos ⟨ha, hb⟩]
    exact ⟨_, rfl⟩

theorem one_refuses (inner outer : Vector U8 64) : Refuses (one_ecalls inner outer) := by
  intro a b hb
  simp only [one_ecalls, value_ORDER]
  rw [if_neg fun h => absurd h.2 (not_lt.mpr hb)]

/-- The key 1. -/
def one_node : HDPrivNode := ⟨Vector.replicate 32 0, hex32 1⟩

theorem one_valid : 0 < value one_node.privkey ∧ value one_node.privkey < n := by decide +kernel

def one_inner : Vector U8 64 :=
  digest 0x3B0C11D0EB0AF5C0E7BEFC7D9D795995B737BB6DAC703CC277A1D91619DB864D
    0xA3E33F0326AD02770FD30A981CFA7BE6CCB9F934F69A4AF86007C6A8DD77AD23

def one_outer : Vector U8 64 :=
  digest 0x23F2740EA906F427C10CD03910C510F0C468E703F042A8D06C5B7721F2C15B33
    0x8AEDBB4C67C846B9ED458F1FB89B9C7C62D695F210AB89C9C3F99989302A85C7

theorem ckd_priv_derives_one :
    let hec := one_computes one_inner one_outer
    (∀ result, ckd_priv (one_ecalls one_inner one_outer) one_node 0 () = .ok result () ↔
      (step_hash hec one_node one_valid 0).1 ≠ 0 ∧
        ∃ c, (spec hec one_node one_valid).child 0 = some c ∧ Stands hec result c) ∧
    ((∃ e, ckd_priv (one_ecalls one_inner one_outer) one_node 0 () = .err e ()) ↔
      (step_hash hec one_node one_valid 0).1 = 0 ∨ n ≤ (step_hash hec one_node one_valid 0).1 ∨
        ((step_hash hec one_node one_valid 0).1 + value one_node.privkey) % n = 0) ∧
    (¬ KeyScheme.hardened 0 → (step_hash hec one_node one_valid 0).1 ≠ 0 →
      ∀ K, (spec hec one_node one_valid).neuter.child (scheme hec) 0 = some K ↔
        ∃ result c, ckd_priv (one_ecalls one_inner one_outer) one_node 0 () = .ok result () ∧
          Stands hec result c ∧ K = c.neuter) :=
  ckd_priv_derives (one_ecalls one_inner one_outer) 1 (fun _ => generator_point)
    (one_computes one_inner one_outer) one_node one_valid 0 (.inr (one_refuses _ _))

/-- A left half of zero is refused, although there is a child. -/
theorem zero_left_refused :
    (∃ e, ckd_priv (one_ecalls (digest 0 0) (digest 0 0)) one_node 0 () = .err e ()) ∧
      ∃ c, (spec (one_computes (digest 0 0) (digest 0 0)) one_node one_valid).child 0 = some c := by
  have hleft : (step_hash (one_computes (digest 0 0) (digest 0 0)) one_node one_valid 0).1 = 0 := by
    decide +kernel
  refine ⟨?_, Option.ne_none_iff_exists'.mp fun hnone => ?_⟩
  · exact (ckd_priv_err_iff (one_computes (digest 0 0) (digest 0 0)) one_node one_valid 0
      (.inr (one_refuses _ _))).mpr (.inl hleft)
  · have hvalid : ∀ m, m = 0 → ¬ (n ≤ m ∨ (m + value one_node.privkey) % n = 0) := by
      rintro m rfl
      decide +kernel
    exact hvalid _ hleft ((child_eq_none_iff _ _ _ _).mp hnone)

end HDPrivNode

end Vanadium.AppSdk
