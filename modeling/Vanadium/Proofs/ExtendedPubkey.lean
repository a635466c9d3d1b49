import Vanadium.Bitcoin.ExtendedPubkey
import Vanadium.Proofs.HdNode
import Vanadium.Proofs.MessageCodecs

/-!
# The exported key is the one at the path

The handler puts the 78 bytes together from separate derivations: of the node, of the
one above it, and of the master key where that is the one above. In both trees each of
these ends in the node that BIP-32 derives, as long as no left half on the way is above
the order, so that the parts agree with each other.

The depth is one byte, and a path may have 256 steps: then the key is exported with the
depth of a master key.
-/

namespace Vanadium.Bitcoin.ExtendedPubkey

open Lib AppSdk AppSdk.HDPrivNode Secp256k1

section Trees

variable {dev : Device} {G : Type} [AddCommGroup G] {g : G} {point : G → AffinePoint}
  (hec : Computes dev.ecalls g point)

/-- The first four bytes of the hash of a public key. -/
def fingerprint_bytes (dev : Device) (point : G → AffinePoint) (K : G) : Bytes :=
  (dev.ecalls.ripemd160 (dev.ecalls.sha256 (point K).sec1.toList).toList).toList.take 4

/-- The master key of the resident seed. -/
def resident_master : Option (scheme hec).PrivNode :=
  dev.resident_seed.bind fun seed =>
    (scheme hec).master (as_bytes "Bitcoin seed") seed.toList

/-- Along the path, the numbers that are added are not above the order. -/
def InRange (master : (scheme hec).PrivNode) (path : List U32) : Prop :=
  ∀ front i, front ++ [i] <+: path → ∀ c, master.derive front = some c →
    ((scheme hec).prf c.chain (c.data i)).1 ≤ n

/-- The device derives the keys of BIP-32 from its master key. -/
structure StandardTree (master : (scheme hec).PrivNode) : Prop where
  derive : ∀ path node, dev.ecalls.derive_hd_node path = some node →
    ∃ c, master.derive path = some c ∧ Stands hec node c
  fingerprint : to_be_bytes dev.ecalls.get_master_fingerprint =
    fingerprint_bytes dev point master.neuter.point

/-! ## Keys -/

theorem hmac_eq (key data : Bytes) : (hmac_sha512 dev key data).toList =
    hmac (fun message => (dev.ecalls.sha512 message).toList) 128 key data := by
  rw [hmac_sha512, hmac]
  by_cases hlong : key.length > 128
  · simp only [if_pos hlong, if_neg (not_le.mpr hlong), Vector.length_toList]
  · simp only [if_neg hlong, if_pos (not_lt.mp hlong)]

include hec in
theorem stands_valid {node : AppSdk.HDPrivNode} {c : (scheme hec).PrivNode}
    (h : Stands hec node c) : 0 < value node.privkey ∧ value node.privkey < n := by
  rw [h.1]
  exact ⟨c.key_pos, c.key_lt⟩

theorem stands_spec {node : AppSdk.HDPrivNode} {c : (scheme hec).PrivNode}
    (h : Stands hec node c) : spec hec node (stands_valid hec h) = c :=
  KeyScheme.PrivNode.ext h.1 h.2

theorem public_key_ok {node : AppSdk.HDPrivNode} {c : (scheme hec).PrivNode}
    (h : Stands hec node c) :
    to_public_key dev node.privkey () = .ok (point c.neuter.point).key () := by
  have hkey := to_public_key_eq hec (stands_valid hec h)
  rw [h.1] at hkey
  exact Exec.map_err_ok.mpr hkey

theorem take_four (v : Vector U8 20) :
    v.toList.take 4 = [v.get 0, v.get 1, v.get 2, v.get 3] := by
  refine List.ext_getElem (by simp) fun i hi _ => ?_
  have hlt : i < 4 := by
    rw [List.length_take] at hi
    omega
  rw [List.getElem_take, Vector.getElem_toList]
  interval_cases i <;> rfl

omit [AddCommGroup G] in
theorem fingerprint_eq (K : G) :
    to_be_bytes ((point K).key.fingerprint dev.ecalls) = fingerprint_bytes dev point K := by
  rw [EcfpPublicKey.fingerprint, compressed_bytes_key, fingerprint_bytes,
    take_four, to_be_bytes_from_be_bytes]

/-! ## The trees -/

/-- What the handler derives in a tree is what BIP-32 derives from its master key. -/
structure Derives (tree : KeyTree) (master : (scheme hec).PrivNode) (path : List U32) :
    Prop where
  node : ∀ front, front <+: path → ∀ r, derive_hd_node dev tree front () = .ok r () →
    ∃ c, master.derive front = some c ∧ Stands hec r c
  fingerprint : ∀ f, master_fingerprint dev tree () = .ok f () →
    to_be_bytes f = fingerprint_bytes dev point master.neuter.point

theorem StandardTree.derives {master : (scheme hec).PrivNode}
    (h : StandardTree hec master) (path : List U32) : Derives hec .standard master path := by
  refine ⟨fun front _ r hr => ?_, fun f hf => ?_⟩
  · exact h.derive front r (Exec.orElse_ok.mp hr).1
  · cases hf
    exact h.fingerprint

theorem step_ok {node r : AppSdk.HDPrivNode} {c : (scheme hec).PrivNode} {i : U32}
    (hstands : Stands hec node c) (hle : ((scheme hec).prf c.chain (c.data i)).1 ≤ n)
    (h : derive_resident_hd_node.step dev node i () = .ok r ()) :
    ∃ c', c.child i = some c' ∧ Stands hec r c' := by
  have hvalid := stands_valid hec hstands
  have hhash : (step_hash hec node hvalid i).1 ≤ n := by
    rw [step_hash, stands_spec hec hstands, hstands.2]
    exact hle
  have hok := (ckd_priv_ok hec node hvalid i (.inl hhash) r).mp (Exec.map_err_ok.mp h)
  rw [stands_spec hec hstands] at hok
  exact hok.2

theorem steps_ok {path : List U32} {node r : AppSdk.HDPrivNode} {c : (scheme hec).PrivNode}
    (hstands : Stands hec node c) (hrange : InRange hec c path)
    (h : path.foldlM (derive_resident_hd_node.step dev) node () = .ok r ()) :
    ∃ c', c.derive path = some c' ∧ Stands hec r c' := by
  induction path generalizing node c with
  | nil =>
      cases h
      exact ⟨c, rfl, hstands⟩
  | cons i path ih =>
      rw [List.foldlM_cons, Exec.bind_ok] at h
      obtain ⟨node', _, hstep, hrest⟩ := h
      obtain ⟨c', hc', hstands'⟩ := step_ok hec hstands
        (hrange [] i (List.prefix_append [i] path) c rfl) hstep
      have hderive : ∀ front, c.derive (i :: front) = c'.derive front := by
        intro front
        show (c.child i).bind _ = _
        rw [hc']
        rfl
      rw [hderive]
      refine ih hstands' (fun front j hfront d hd => ?_) hrest
      exact hrange (i :: front) j (List.cons_prefix_cons.mpr ⟨rfl, hfront⟩) d ((hderive front).trans hd)

theorem master_stands {seed : Vector U8 32} {m : (scheme hec).PrivNode}
    (h : (scheme hec).master (as_bytes "Bitcoin seed") seed.toList = some m) :
    Stands hec (master_hd_node_from_seed dev seed) m := by
  have hhash := @hmac_eq dev (as_bytes "Bitcoin seed") seed.toList
  rw [KeyScheme.master] at h
  split at h
  · next hvalid =>
      obtain rfl := Option.some.inj h
      refine ⟨?_, ?_⟩
      · show value ((hmac_sha512 dev (as_bytes "Bitcoin seed") seed.toList).take 32) = _
        rw [value, BigNum.value, BigNum.low, List.drop_zero, Vector.toList_take, hhash]
        simp only [scheme]
      · show ((hmac_sha512 dev (as_bytes "Bitcoin seed") seed.toList).drop 32).toList = _
        rw [Vector.toList_drop, hhash]
        simp only [scheme]
  · cases h

theorem resident_derives {m : (scheme hec).PrivNode} {path : List U32}
    (hmaster : resident_master hec = some m) (hrange : InRange hec m path) :
    Derives hec .resident m path := by
  obtain ⟨seed, hseed, hm⟩ := Option.bind_eq_some_iff.mp hmaster
  have hstands := master_stands hec hm
  have hroot : get_resident_master_hd_node dev () = .ok (master_hd_node_from_seed dev seed) () :=
    Exec.orElse_bind_some hseed
  refine ⟨fun front hfront r hr => ?_, fun f hf => ?_⟩
  · have hsteps : front.foldlM (derive_resident_hd_node.step dev)
        (master_hd_node_from_seed dev seed) () = .ok r () := by
      have hfold : derive_hd_node dev .resident front () = _ := Exec.bind_apply_ok hroot
      exact hfold.symm.trans hr
    exact steps_ok hec hstands (fun a i ha => hrange a i (ha.trans hfront)) hsteps
  · have hprint : get_resident_master_fingerprint dev () =
        .ok ((point m.neuter.point).key.fingerprint dev.ecalls) () := by
      rw [get_resident_master_fingerprint, Exec.bind_apply_ok hroot,
        Exec.bind_apply_ok (public_key_ok hec hstands)]
      rfl
    rw [← fingerprint_eq]
    cases hprint.symm.trans hf
    rfl

/-! ## The parts -/

variable {tree : KeyTree} {master : (scheme hec).PrivNode} {path : List U32}

/-- The fingerprint is that of the node one step above. -/
theorem parent_fpr_ok (htree : Derives hec tree master path) {front : List U32} {i : U32}
    (hpath : path = front ++ [i]) {fpr : U32} (h : parent_fpr dev tree path () = .ok fpr ())
    {parent : (scheme hec).PrivNode} (hparent : master.derive front = some parent) :
    to_be_bytes fpr = fingerprint_bytes dev point parent.neuter.point := by
  have hlength : path.length = front.length + 1 := by
    rw [hpath, List.length_append, List.length_singleton]
  have hfront : path.take (path.length - 1) = front := by
    rw [hlength, hpath, Nat.add_sub_cancel, List.take_left]
  have hempty : path.isEmpty = false := by
    rw [hpath]
    simp
  rw [parent_fpr, hempty] at h
  by_cases hone : path.length = 1
  · obtain rfl := List.length_eq_zero_iff.mp (by omega : front.length = 0)
    obtain rfl := Option.some.inj hparent
    exact htree.fingerprint fpr ((congrFun (if_pos hone) ()).symm.trans h)
  · replace h := (congrFun (if_neg hone) ()).symm.trans h
    obtain ⟨node, _, hnode, h⟩ := Exec.bind_ok.mp h
    rw [hfront] at hnode
    obtain ⟨c, hc, hstands⟩ := htree.node front (hpath ▸ List.prefix_append front [i]) node hnode
    obtain rfl := Option.some.inj (hc.symm.trans hparent)
    rw [Exec.bind_apply_ok (public_key_ok hec hstands)] at h
    rw [← fingerprint_eq]
    cases h
    rfl

/-- The bytes are the serialization of what is derived from a master key along the path. -/
def Serves (master : Option (scheme hec).PrivNode) (path : List U32) (xpub : Bytes) : Prop :=
  ∃ m x, master = some m ∧
    (KeyScheme.Extended.root m).derive (fingerprint_bytes dev point) path = some x ∧
    x.serialize (to_be_bytes BIP32_TESTNET_PUBKEY_VERSION) id = some xpub

/-- What the handler returned was put together from these parts. -/
theorem handle_ok {display : Bool} {identity_index : Option U32} {resp : Response}
    (h : handle_get_extended_pubkey dev tree path display identity_index () = .ok resp ()) :
    ∃ hd_node pubkey fpr, derive_hd_node dev tree path () = .ok hd_node () ∧
      to_public_key dev hd_node.privkey () = .ok pubkey () ∧
      parent_fpr dev tree path () = .ok fpr () ∧
      resp.xpub = to_be_bytes BIP32_TESTNET_PUBKEY_VERSION ++ [BitVec.ofNat 8 path.length] ++
        to_be_bytes fpr ++ to_be_bytes (path.getLast?.getD 0) ++ hd_node.chaincode.toList ++
          (EcfpPublicKey.compressed_bytes pubkey.public_key).toList := by
  rw [handle_get_extended_pubkey, Exec.reject_bind_ok, Exec.reject_bind_ok] at h
  obtain ⟨_, _, h⟩ := h
  obtain ⟨hd_node, _, hnode, h⟩ := Exec.bind_ok.mp h
  obtain ⟨pubkey, _, hpubkey, h⟩ := Exec.bind_ok.mp h
  obtain ⟨fpr, _, hfpr, h⟩ := Exec.bind_ok.mp h
  obtain ⟨_, h⟩ := Exec.reject_bind_ok.mp h
  obtain ⟨identity_sig, _, _, h⟩ := Exec.bind_ok.mp h
  cases h
  exact ⟨hd_node, pubkey, fpr, hnode, hpubkey, hfpr, rfl⟩

theorem serves_of_derives (htree : Derives hec tree master path) (hshort : path.length ≤ 255)
    {display : Bool} {identity_index : Option U32} {resp : Response}
    (h : handle_get_extended_pubkey dev tree path display identity_index () = .ok resp ()) :
    Serves hec (some master) path resp.xpub := by
  obtain ⟨hd_node, pubkey, fpr, hnode, hpubkey, hfpr, hxpub⟩ := handle_ok h
  obtain ⟨c, hc, hstands⟩ := htree.node path List.prefix_rfl hd_node hnode
  obtain rfl : (point c.neuter.point).key = pubkey := by
    have hkey := public_key_ok hec hstands
    cases hkey.symm.trans hpubkey
    rfl
  have hindex : ∀ i, (scheme hec).ser_index i = to_be_bytes i := fun i => (to_be_bytes_eq i).symm
  -- the bytes of a node at the path, with the fingerprint and the number of the last step
  have hserves : ∀ x, (KeyScheme.Extended.root master).derive (fingerprint_bytes dev point) path =
      some x → x.depth = path.length → x.parent = to_be_bytes fpr →
      x.number = path.getLast?.getD 0 → x.node = c → Serves hec (some master) path resp.xpub := by
    rintro ⟨_, _, _, _⟩ hx rfl rfl rfl rfl
    refine ⟨master, _, rfl, hx, ?_⟩
    rw [KeyScheme.Extended.serialize, if_pos (by show path.length < 256; omega), hindex,
      scheme_ser_point, hxpub, compressed_bytes_key, hstands.2, id]
  rcases List.eq_nil_or_concat' path with rfl | ⟨front, i, rfl⟩
  · obtain rfl := Option.some.inj hc
    cases hfpr
    exact hserves _ rfl rfl rfl rfl rfl
  · rw [KeyScheme.derive_concat] at hc
    obtain ⟨parent, hparent, hchild⟩ := Option.bind_eq_some_iff.mp hc
    refine hserves _ (KeyScheme.Extended.derive_last hparent hchild) ?_ ?_ ?_ rfl
    · show front.length + 1 = (front ++ [i]).length
      rw [List.length_append, List.length_singleton]
    · exact (parent_fpr_ok hec htree rfl hfpr hparent).symm
    · rw [List.getLast?_concat]
      rfl

/-- What is served was derived, and has a depth of one byte. -/
theorem derived_of_serves {xpub : Bytes} {root : Option (scheme hec).PrivNode}
    (h : Serves hec root path xpub) :
    path.length ≤ 255 ∧ ∃ m, root = some m ∧ (m.derive path).isSome := by
  obtain ⟨m, x, hm, hx, hser⟩ := h
  obtain ⟨hnode, hdepth⟩ := @KeyScheme.Extended.derive_node _ _ _ _
    (fingerprint_bytes dev point) m path
  rw [hx] at hnode
  refine ⟨?_, m, hm, ?_⟩
  · rw [KeyScheme.Extended.serialize] at hser
    split at hser
    · next hlt =>
        have := hdepth x hx
        omega
    · cases hser
  · rw [← hnode]
    rfl

/-- Where a path leads to a node, no number on the way is above the order. -/
theorem inRange_of_derived {m : (scheme hec).PrivNode} (h : (m.derive path).isSome) :
    InRange hec m path := by
  rintro front i ⟨rest, rfl⟩ c hc
  have hsome : (m.derive (front ++ [i])).isSome := by
    rw [KeyScheme.PrivNode.derive, List.foldlM_append] at h
    exact Option.isSome_of_isSome_bind h
  rw [KeyScheme.derive_concat, hc] at hsome
  obtain ⟨c', hc'⟩ := Option.isSome_iff_exists.mp hsome
  exact (KeyScheme.add_eq_some_iff.mp hc').1.le

/-- The master key of each tree. -/
def tree_master (standard : (scheme hec).PrivNode) : KeyTree → Option (scheme hec).PrivNode
  | .standard => some standard
  | .resident => resident_master hec

end Trees

/-- A key that is returned is the one that BIP-32 derives along the path, if and only if the
path has at most 255 steps and, in the resident tree, the master key is in range and no number
that is added on the way is above the order. -/
theorem handle_get_extended_pubkey_serves_iff (dev : Device) {G : Type} [AddCommGroup G] (g : G)
    (point : G → AffinePoint) (hec : Computes dev.ecalls g point)
    (standard : (scheme hec).PrivNode) (hstandard : StandardTree hec standard) (tree : KeyTree)
    (path : List U32) (display : Bool) (identity_index : Option U32) (resp : Response)
    (h : handle_get_extended_pubkey dev tree path display identity_index () = .ok resp ()) :
    Serves hec (tree_master hec standard tree) path resp.xpub ↔
      path.length ≤ 255 ∧ (tree = .resident →
        ∃ m, resident_master hec = some m ∧ InRange hec m path) := by
  refine ⟨fun hserves => ?_, fun ⟨hshort, hrange⟩ => ?_⟩
  · obtain ⟨hshort, m, hm, hderived⟩ := derived_of_serves hec hserves
    refine ⟨hshort, fun htree => ⟨m, ?_, inRange_of_derived hec hderived⟩⟩
    rwa [htree] at hm
  · cases tree with
    | standard => exact serves_of_derives hec (hstandard.derives hec path) hshort h
    | resident =>
        obtain ⟨m, hm, hm_range⟩ := hrange rfl
        show Serves hec (resident_master hec) path resp.xpub
        rw [hm]
        exact serves_of_derives hec (resident_derives hec hm hm_range) hshort h

/-! ## Two requests -/

/-- A device with the key 1, and with a resident seed. -/
def one_device (inner outer : Vector U8 64) : Device where
  ecalls := one_ecalls inner outer
  resident_seed := some (Vector.replicate 32 0)
  review _ := true
  encode_check _ := ""
  hex _ := ""
  schnorr_sign _ _ := none

theorem one_device_computes (inner outer : Vector U8 64) :
    Computes (one_device inner outer).ecalls (1 : ZMod n) fun _ => generator_point :=
  one_computes inner outer

def one_master (inner outer : Vector U8 64) :
    (scheme (one_device_computes inner outer)).PrivNode :=
  spec (one_device_computes inner outer) one_node one_valid

theorem one_standard (inner outer : Vector U8 64) :
    StandardTree (one_device_computes inner outer) (one_master inner outer) := by
  refine ⟨fun path node h => ?_, ?_⟩
  · simp only [one_device, one_ecalls] at h
    split at h
    · next hpath =>
        obtain rfl := hpath
        obtain rfl := Option.some.inj h
        exact ⟨_, rfl, rfl, rfl⟩
    · cases h
  · show to_be_bytes 0x751E76E8 =
      ((hex32 0x751E76E8199196D454941C45D1B3A323F1433BD6).drop 12).toList.take 4
    decide +kernel

theorem one_exported : ∃ resp, handle_get_extended_pubkey (one_device one_inner one_outer)
    .standard [] true none () = .ok resp () :=
  ⟨_, rfl⟩

theorem serves_master : ∃ resp, handle_get_extended_pubkey (one_device one_inner one_outer)
      .standard [] true none () = .ok resp () ∧
    (Serves (one_device_computes one_inner one_outer)
        (tree_master _ (one_master one_inner one_outer) .standard) [] resp.xpub ↔
      ([] : List U32).length ≤ 255 ∧ (KeyTree.standard = .resident →
        ∃ m, resident_master (one_device_computes one_inner one_outer) = some m ∧
          InRange (one_device_computes one_inner one_outer) m [])) := by
  obtain ⟨resp, h⟩ := one_exported
  exact ⟨resp, h, handle_get_extended_pubkey_serves_iff (one_device one_inner one_outer) 1
    (fun _ => generator_point) (one_device_computes one_inner one_outer)
    (one_master one_inner one_outer) (one_standard one_inner one_outer) .standard [] true none
    resp h⟩

/-! A hash whose left half is always 1: each step adds one to the key. -/

/-- The device whose hash it is. -/
def counting : Device := one_device (digest 1 0) (digest 1 0)

theorem counting_computes : Computes counting.ecalls (1 : ZMod n) fun _ => generator_point :=
  one_device_computes (digest 1 0) (digest 1 0)

theorem counting_prf (chain data : Bytes) :
    ((scheme counting_computes).prf chain data).1 = 1 := by
  have hsha : ∀ message, counting.ecalls.sha512 message = digest 1 0 := fun message => ite_self _
  show LittleEndian.read ((hmac _ 128 chain data).take 32).reverse = 1
  rw [hmac]
  simp only [hsha]
  decide +kernel

theorem counting_step {node : AppSdk.HDPrivNode} (i : U32) (hpos : 0 < value node.privkey)
    (hlt : value node.privkey + 1 < n) :
    ∃ r, derive_resident_hd_node.step counting node i () = .ok r () ∧
      value r.privkey = value node.privkey + 1 := by
  have hvalid : 0 < value node.privkey ∧ value node.privkey < n := ⟨hpos, by omega⟩
  have hleft : (step_hash counting_computes node hvalid i).1 = 1 := counting_prf _ _
  have hsum : (1 + value node.privkey) % n = value node.privkey + 1 := by
    rw [Nat.mod_eq_of_lt (by omega), Nat.add_comm]
  have hchild : (spec counting_computes node hvalid).child i ≠ none := by
    rw [Ne, child_eq_none_iff, hleft, hsum]
    have hn : 1 < n := by omega
    omega
  obtain ⟨c, hc⟩ := Option.ne_none_iff_exists'.mp hchild
  obtain ⟨r, hr⟩ := exists_stands counting_computes node hvalid i hc
  refine ⟨r, Exec.map_err_ok.mpr ?_, ?_⟩
  · refine (ckd_priv_ok counting_computes node hvalid i (.inl ?_) r).mpr ⟨?_, c, hc, hr⟩
    · rw [hleft]
      omega
    · rw [hleft]
      exact one_ne_zero
  · have hkey := (KeyScheme.add_eq_some_iff.mp hc).2.1
    rw [hr.1, hkey, ← hsum]
    exact congrArg (fun left => (left + value node.privkey) % n) hleft

theorem counting_steps {path : List U32} {node : AppSdk.HDPrivNode}
    (hpos : 0 < value node.privkey) (hlt : value node.privkey + path.length < n) :
    ∃ r, path.foldlM (derive_resident_hd_node.step counting) node () = .ok r () ∧
      0 < value r.privkey ∧ value r.privkey < n := by
  induction path generalizing node with
  | nil => exact ⟨node, rfl, hpos, hlt⟩
  | cons i path ih =>
      rw [List.length_cons] at hlt
      obtain ⟨node', hstep, hvalue⟩ := counting_step i hpos (by omega)
      obtain ⟨r, hr, hvalid⟩ := @ih node' (by omega) (by omega)
      exact ⟨r, (Exec.bind_apply_ok hstep).trans hr, hvalid⟩

theorem counting_derives {path : List U32} (hlength : path.length ≤ 256) :
    ∃ r, derive_hd_node counting .resident path () = .ok r () ∧
      ∃ key, to_public_key counting r.privkey () = .ok key () := by
  have hone : value (master_hd_node_from_seed counting (Vector.replicate 32 0)).privkey = 1 := by
    decide +kernel
  have hn : 257 < n := by decide
  obtain ⟨r, hr, hvalid⟩ := @counting_steps path
    (master_hd_node_from_seed counting (Vector.replicate 32 0)) (by omega) (by omega)
  exact ⟨r, hr, _, Exec.map_err_ok.mpr (to_public_key_eq counting_computes hvalid)⟩

theorem counting_exports {path : List U32} (hlength : path.length = 256) : ∃ resp,
    handle_get_extended_pubkey counting .resident path true none () = .ok resp () := by
  obtain ⟨node, hnode, key, hkey⟩ := @counting_derives path hlength.le
  obtain ⟨parent, hparent, parent_key, hparent_key⟩ :=
    @counting_derives (path.take (path.length - 1)) (by rw [List.length_take]; omega)
  have hempty : path.isEmpty = false := by
    cases path with
    | nil => simp at hlength
    | cons => rfl
  have hfpr : parent_fpr counting .resident path () =
      .ok (parent_key.fingerprint counting.ecalls) () := by
    rw [parent_fpr, hempty, if_neg Bool.false_ne_true, if_neg (by omega : ¬ path.length = 1),
      Exec.bind_apply_ok hparent, Exec.bind_apply_ok hparent_key]
    rfl
  have hlong : ¬ path.length > 256 := by omega
  have hno_identity : ¬ ((none : Option U32).isSome ∧ KeyTree.resident ≠ .standard) :=
    fun h => by cases h.1
  rw [handle_get_extended_pubkey, Exec.reject_bind_neg hlong, Exec.reject_bind_neg hno_identity,
    Exec.bind_apply_ok hnode, Exec.bind_apply_ok hkey, Exec.bind_apply_ok hfpr]
  exact ⟨_, Exec.reject_bind_neg (fun h => by cases h.2)⟩

/-- A path of 256 steps is accepted, and its key has the depth of a master key. -/
theorem long_path_exported : ∃ resp,
    handle_get_extended_pubkey counting .resident (List.replicate 256 0) true none () =
      .ok resp () ∧
    ¬ Serves counting_computes (resident_master counting_computes) (List.replicate 256 0)
      resp.xpub := by
  obtain ⟨resp, h⟩ := @counting_exports (List.replicate 256 0) List.length_replicate
  refine ⟨resp, h, fun hserves => ?_⟩
  have hshort := (derived_of_serves counting_computes hserves).1
  rw [List.length_replicate] at hshort
  omega

end Vanadium.Bitcoin.ExtendedPubkey
