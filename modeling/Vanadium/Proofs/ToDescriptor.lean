import Vanadium.Bip388.ToDescriptor
import Vanadium.Proofs.DescriptorReads
import Vanadium.Proofs.Placeholders

/-!
# Descriptors

The two printers of templates agree on everything but key expressions. A template is
printed in pieces by both of them, and what is written for a descriptor is the same
pieces with keys filled in: if there are keys for all indices, and unless there is a
threshold of no keys, where the one printer writes a comma and the other does not.
-/

namespace Vanadium.Bip388

open Lib DescriptorTemplate

def KeyExpression.indices (kp : KeyExpression) : List U32 :=
  match kp.key_type with
  | .plainKey key_index => [key_index]
  | .musig key_indices => key_indices

section
variable {X : Type} (display_xpub : X → Text) (key_information : List (KeyInformation X))
variable (is_change : Bool) (address_index : U32)

/-! ## Key expressions, filled in -/

/-- What stands for `@i`. -/
def key_info_text (key_index : U32) : Text :=
  match key_information[key_index.toNat]? with
  | some key_info => key_info.display display_xpub
  | none => []

/-- What stands for `@i,@j,..`. -/
def key_infos_text : List U32 → Text
  | [] => []
  | [idx] => key_info_text display_xpub key_information idx
  | idx :: key_indices =>
      key_info_text display_xpub key_information idx ++ ',' :: key_infos_text key_indices

/-- What stands for a key expression: the keys are filled in, and `/<a;b>/*` is a step and the
address index. -/
def key_text (kp : KeyExpression) : Text :=
  match kp.key_type with
  | .plainKey key_index =>
      key_info_text display_xpub key_information key_index ++ steps is_change address_index kp
  | .musig key_indices =>
      "musig(".toList ++ key_infos_text display_xpub key_information key_indices ++ [')'] ++
        steps is_change address_index kp

/-- There is a key for every index. -/
def InRange (ps : List Piece) : Prop :=
  ∀ kp ∈ placeholders_of ps, ∀ idx ∈ kp.1.val.indices, idx.toNat < key_information.length

/-! ## What a writer prints -/

/-- A writer writes something if all indices are in range, and fails if not. Under some condition,
what it writes are these pieces. -/
structure Prints (m : Writer) (ps : List Piece) (condition : Prop) : Prop where
  ok : InRange key_information ps → ∃ t, (∀ w, m w = .ok () (w ++ t)) ∧
    (condition → t = render (key_text display_xpub key_information is_change address_index) ps)
  fails : ¬ InRange key_information ps → ∀ w, ∃ w', m w = .err .invalidKeyIndex w'

end

section
variable {X : Type} {display_xpub : X → Text} {key_information : List (KeyInformation X)}
variable {is_change : Bool} {address_index : U32}

theorem inRange_append {ps qs : List Piece} :
    InRange key_information (ps ++ qs) ↔
      InRange key_information ps ∧ InRange key_information qs := by
  rw [InRange, placeholders_of_append, List.forall_mem_append]
  rfl

theorem inRange_of_text {ps : List Piece} (h : placeholders_of ps = []) :
    InRange key_information ps := by
  rw [InRange, h]
  simp

namespace Prints

variable {m m' : Writer} {ps qs : List Piece} {p q : Prop}

theorem bind (h : Prints display_xpub key_information is_change address_index m ps p)
    (h' : Prints display_xpub key_information is_change address_index m' qs q) :
    Prints display_xpub key_information is_change address_index (m >>= fun _ => m') (ps ++ qs)
      (p ∧ q) := by
  refine ⟨fun hrange => ?_, fun hrange w => ?_⟩
  · obtain ⟨hps, hqs⟩ := inRange_append.mp hrange
    obtain ⟨t, ht, hpt⟩ := h.ok hps
    obtain ⟨u, hu, hqu⟩ := h'.ok hqs
    refine ⟨t ++ u, fun w => ?_, fun ⟨hp, hq⟩ => ?_⟩
    · rw [Exec.bind_apply_ok (ht w), hu, List.append_assoc]
    · rw [render_append, hpt hp, hqu hq]
  · by_cases hps : InRange key_information ps
    · have hqs : ¬ InRange key_information qs := fun hqs =>
        hrange (inRange_append.mpr ⟨hps, hqs⟩)
      obtain ⟨t, ht, -⟩ := h.ok hps
      obtain ⟨w', hw'⟩ := h'.fails hqs (w ++ t)
      exact ⟨w', by rw [Exec.bind_apply_ok (ht w), hw']⟩
    · obtain ⟨w', hw'⟩ := h.fails hps w
      exact ⟨w', by rw [Exec.bind_apply_err hw']⟩

theorem mono (h : Prints display_xpub key_information is_change address_index m ps p)
    (hqp : q → p) : Prints display_xpub key_information is_change address_index m ps q := by
  refine ⟨fun hrange => ?_, h.fails⟩
  obtain ⟨t, ht, hpt⟩ := h.ok hrange
  exact ⟨t, ht, fun hq => hpt (hqp hq)⟩

/-- Text alone. -/
theorem push_str (h : placeholders_of ps = []) :
    Prints display_xpub key_information is_change address_index
      (Bip388.push_str
        (render (key_text display_xpub key_information is_change address_index) ps)) ps True :=
  ⟨fun _ => ⟨_, fun _ => rfl, fun _ => rfl⟩, fun hrange => (hrange (inRange_of_text h)).elim⟩

theorem text (t : Text) :
    Prints display_xpub key_information is_change address_index (Bip388.push_str t) [.text t]
      True := by
  simpa using @push_str _ display_xpub key_information is_change address_index [.text t] rfl

theorem nothing :
    Prints display_xpub key_information is_change address_index (pure ()) [] True :=
  ⟨fun _ => ⟨[], fun w => by rw [List.append_nil]; rfl, fun _ => rfl⟩,
    fun hrange => (hrange (inRange_of_text rfl)).elim⟩

theorem fragment (name : String)
    (h : Prints display_xpub key_information is_change address_index m ps p) :
    Prints display_xpub key_information is_change address_index (write_fragment name m)
      (enclosed name ps) p :=
  ((text _).bind (h.bind (text [')']))).mono fun hp => ⟨trivial, hp, trivial⟩

theorem wrapper (name : Char) (inner : DescriptorTemplate)
    (h : Prints display_xpub key_information is_change address_index m ps p) :
    Prints display_xpub key_information is_change address_index (write_wrapper name inner m)
      (inner.letter name ps) p := by
  unfold write_wrapper letter
  split
  · exact ((text [name]).bind (nothing.bind h)).mono fun hp => ⟨trivial, trivial, hp⟩
  · have hcolon := (text [name]).bind ((text [':']).bind h)
    refine ⟨fun hrange => ?_, hcolon.fails⟩
    obtain ⟨t, ht, hpt⟩ := hcolon.ok hrange
    exact ⟨t, ht, fun hp => hpt ⟨trivial, trivial, hp⟩⟩

end Prints

/-! ## Keys -/

theorem key_infos_text_cons (idx : U32) (key_indices : List U32) :
    key_infos_text display_xpub key_information (idx :: key_indices) =
      key_info_text display_xpub key_information idx ++
        key_indices.flatMap fun idx => ',' :: key_info_text display_xpub key_information idx := by
  induction key_indices generalizing idx with
  | nil => simp [key_infos_text]
  | cons idx' key_indices ih =>
      rw [key_infos_text, ih, List.flatMap_cons]
      · rfl
      · simp

theorem key_info_ok {idx : U32} (h : idx.toNat < key_information.length) :
    ∃ key_info, key_information[idx.toNat]? = some key_info ∧
      key_info_text display_xpub key_information idx = key_info.display display_xpub := by
  refine ⟨_, List.getElem?_eq_getElem h, ?_⟩
  rw [key_info_text, List.getElem?_eq_getElem h]

/-- The key information after the first. -/
theorem write_key_infos_ok {key_indices : List U32}
    (h : ∀ idx ∈ key_indices, idx.toNat < key_information.length) (i : ℕ) (w : Text) :
    write_key_infos display_xpub key_information (i + 1) key_indices w = .ok () (w ++
      key_indices.flatMap fun idx => ',' :: key_info_text display_xpub key_information idx) := by
  induction key_indices generalizing i w with
  | nil =>
      rw [List.flatMap_nil, List.append_nil]
      rfl
  | cons idx key_indices ih =>
      rw [List.forall_mem_cons] at h
      obtain ⟨key_info, hinfo, htext⟩ := @key_info_ok _ display_xpub _ _ h.1
      rw [write_key_infos, hinfo, List.flatMap_cons, htext]
      have hrest := ih h.2 (i + 1) (w ++ [','] ++ key_info.display display_xpub)
      rw [List.append_assoc, List.append_assoc, List.append_assoc, ← List.append_assoc w] at hrest
      exact hrest

theorem write_key_infos_first {key_indices : List U32}
    (h : ∀ idx ∈ key_indices, idx.toNat < key_information.length) (w : Text) :
    write_key_infos display_xpub key_information 0 key_indices w =
      .ok () (w ++ key_infos_text display_xpub key_information key_indices) := by
  cases key_indices with
  | nil =>
      rw [key_infos_text, List.append_nil]
      rfl
  | cons idx key_indices =>
      rw [List.forall_mem_cons] at h
      obtain ⟨key_info, hinfo, htext⟩ := @key_info_ok _ display_xpub _ _ h.1
      rw [write_key_infos, hinfo, key_infos_text_cons, htext, ← List.append_assoc]
      exact write_key_infos_ok h.2 0 (w ++ key_info.display display_xpub)

theorem write_key_infos_fails {key_indices : List U32}
    (h : ¬ ∀ idx ∈ key_indices, idx.toNat < key_information.length) (i : ℕ) (w : Text) :
    ∃ w', write_key_infos display_xpub key_information i key_indices w =
      .err .invalidKeyIndex w' := by
  induction key_indices generalizing i w with
  | nil => exact absurd (by simp) h
  | cons idx key_indices ih =>
      have hcomma : ∃ w₁, push_comma i w = .ok () w₁ := by
        unfold push_comma
        split <;> exact ⟨_, rfl⟩
      obtain ⟨w₁, hw₁⟩ := hcomma
      rw [write_key_infos, Exec.bind_apply_ok hw₁]
      rw [List.forall_mem_cons, not_and] at h
      by_cases hidx : idx.toNat < key_information.length
      · rw [List.getElem?_eq_getElem hidx]
        exact ih (h hidx) (i + 1) _
      · rw [List.getElem?_eq_none (not_lt.mp hidx)]
        exact ⟨w₁, rfl⟩

namespace Prints

theorem key (kp : Ref KeyExpression) (leaf : Leaf) :
    Prints display_xpub key_information is_change address_index
      (write_key_expression display_xpub key_information is_change address_index kp.val)
      [.key kp leaf] True := by
  have hrange : InRange key_information [.key kp leaf] ↔
      ∀ idx ∈ kp.val.indices, idx.toNat < key_information.length := by
    simp [InRange]
  have hrender : render (key_text display_xpub key_information is_change address_index)
      [.key kp leaf] = key_text display_xpub key_information is_change address_index kp.val := by
    simp
  refine ⟨fun h => ?_, fun h w => ?_⟩
  · rw [hrange] at h
    rw [hrender]
    refine ⟨_, fun w => ?_, fun _ => rfl⟩
    unfold write_key_expression key_text
    unfold KeyExpression.indices at h
    rcases hkey : kp.val.key_type with key_index | key_indices
    · rw [hkey] at h
      obtain ⟨key_info, hinfo, htext⟩ :=
        @key_info_ok _ display_xpub _ _ (h key_index List.mem_cons_self)
      simp only [hinfo, htext]
      rfl
    · rw [hkey] at h
      have hinfos := @write_key_infos_first _ display_xpub _ _ h (w ++ "musig(".toList)
      have hmusig : Bip388.push_str "musig(".toList w = .ok () (w ++ "musig(".toList) := rfl
      simp only [Exec.bind_apply_ok hmusig, Exec.bind_apply_ok hinfos]
      simp only [Bip388.push_str, Exec.modify, List.append_assoc, List.cons_append,
        List.nil_append]
  · rw [hrange] at h
    unfold write_key_expression
    unfold KeyExpression.indices at h
    rcases hkey : kp.val.key_type with key_index | key_indices
    · rw [hkey] at h
      have hindex : ¬ key_index.toNat < key_information.length := by simpa using h
      simp only [List.getElem?_eq_none (not_lt.mp hindex)]
      exact ⟨w, rfl⟩
    · rw [hkey] at h
      obtain ⟨w', hw'⟩ :=
        @write_key_infos_fails _ display_xpub _ _ h 0 (w ++ "musig(".toList)
      have hmusig : Bip388.push_str "musig(".toList w = .ok () (w ++ "musig(".toList) := rfl
      refine ⟨w', ?_⟩
      simp only [Exec.bind_apply_ok hmusig]
      exact Exec.bind_apply_err hw'

/-- Key expressions after the first. -/
theorem keys_after (path : List ℕ) (leaf : Leaf) (kps : List KeyExpression) (i j : ℕ) :
    Prints display_xpub key_information is_change address_index
      (write_key_expressions display_xpub key_information is_change address_index (i + 1) kps)
      (key_pieces path leaf j kps) True := by
  induction kps generalizing i j with
  | nil => exact nothing
  | cons kp kps ih =>
      exact ((text [',']).bind ((key ⟨j :: path, kp⟩ leaf).bind (ih (i + 1) (j + 1)))).mono
        fun _ => ⟨trivial, trivial, trivial⟩

/-- Nothing is wrong but the comma before no keys. -/
theorem threshold (path : List ℕ) (leaf : Leaf) (name : String) (k : U32)
    (kps : List KeyExpression) :
    Prints display_xpub key_information is_change address_index
      (write_threshold display_xpub key_information is_change address_index name k kps)
      (threshold_pieces path leaf name k kps) (kps ≠ []) := by
  cases kps with
  | nil =>
      have hrange : InRange key_information (threshold_pieces path leaf name k []) :=
        inRange_of_text rfl
      refine ⟨fun _ => ⟨name.toList ++ '(' :: decimal k ++ [','] ++ [')'], fun w => ?_,
        fun h => absurd rfl h⟩, fun h => absurd hrange h⟩
      exact congrArg (Outcome.ok ()) (List.append_assoc w _ [')'])
  | cons kp kps =>
      have hopen := @push_str _ display_xpub key_information is_change address_index
        [.text (name.toList ++ ['(']), .text (decimal k), .text [',']] rfl
      have hall := hopen.bind ((nothing.bind
        ((key ⟨0 :: path, kp⟩ leaf).bind (keys_after path leaf kps 0 1))).bind (text [')']))
      have hpieces : threshold_pieces path leaf name k (kp :: kps) =
          [.text (name.toList ++ ['(']), .text (decimal k), .text [',']] ++
            (([] ++ ([.key ⟨0 :: path, kp⟩ leaf] ++ key_pieces path leaf 1 kps)) ++
              [.text [')']]) := by
        simp [threshold_pieces, enclosed, key_pieces]
      have hname : name.toList ++ '(' :: decimal k ++ [','] =
          render (key_text display_xpub key_information is_change address_index)
            [.text (name.toList ++ ['(']), .text (decimal k), .text [',']] := by
        simp
      rw [hpieces, write_threshold, hname]
      exact hall.mono fun _ => ⟨trivial, ⟨trivial, trivial, trivial⟩, trivial⟩

theorem binary {m' : Writer} {q : Prop} (name : String)
    (h : Prints display_xpub key_information is_change address_index m ps p)
    (h' : Prints display_xpub key_information is_change address_index m' qs q) :
    Prints display_xpub key_information is_change address_index
      (write_fragment name do m; Bip388.push_str [',']; m') (enclosed name (ps ++ .text [','] :: qs))
      (p ∧ q) :=
  (fragment name (h.bind ((text [',']).bind h'))).mono fun ⟨hp, hq⟩ => ⟨hp, trivial, hq⟩

end Prints

end

/-! ## Templates -/

namespace DescriptorTemplate

mutual

/-- No threshold of the template is one of no keys. -/
def Listed : DescriptorTemplate → Prop
  | sh inner | wsh inner => inner.Listed
  | pkh _ | wpkh _ | pk _ | pk_k _ | pk_h _ => True
  | sortedmulti _ kps | sortedmulti_a _ kps | multi _ kps | multi_a _ kps => kps ≠ []
  | tr _ tree => listed_tree tree
  | zero | one | older _ | after _ | sha256 _ | ripemd160 _ | hash256 _ | hash160 _ => True
  | andor x y z => x.Listed ∧ y.Listed ∧ z.Listed
  | and_v x y | and_b x y | and_n x y | or_b x y | or_c x y | or_d x y | or_i x y =>
      x.Listed ∧ y.Listed
  | thresh _ descs => listed_scripts descs
  | a inner | s inner | c inner | t inner | d inner | v inner | j inner | n inner | l inner
  | u inner => inner.Listed

def listed_scripts : List DescriptorTemplate → Prop
  | [] => True
  | desc :: descs => desc.Listed ∧ listed_scripts descs

def listed_tree : Option TapTree → Prop
  | none => True
  | some tree => listed_tap_tree tree

def listed_tap_tree : TapTree → Prop
  | .script desc => desc.Listed
  | .branch left right => listed_tap_tree left ∧ listed_tap_tree right

end

section
variable {X : Type} {display_xpub : X → Text} {key_information : List (KeyInformation X)}
variable {is_change : Bool} {address_index : U32}

mutual

theorem prints (path : List ℕ) (leaf : Leaf) : (t : DescriptorTemplate) →
    Prints display_xpub key_information is_change address_index
      (t.write_to display_xpub key_information is_change address_index) (t.pieces path leaf)
      t.Listed
  | sh inner | wsh inner => .fragment _ (prints (0 :: path) leaf inner)
  | pkh kp | wpkh kp | pk kp | pk_k kp | pk_h kp => .fragment _ (.key ⟨0 :: path, kp⟩ leaf)
  | sortedmulti k kps | sortedmulti_a k kps | multi k kps | multi_a k kps =>
      .threshold path leaf _ k kps
  | tr kp tree =>
      (Prints.fragment "tr" ((Prints.key ⟨0 :: path, kp⟩ none).bind (prints_tree path tree))).mono
        fun h => ⟨trivial, h⟩
  | zero => .text ['0']
  | one => .text ['1']
  | older num => by
      simpa [write_to, pieces, Listed, enclosed, fragment] using @Prints.push_str _ display_xpub
        key_information is_change address_index (enclosed "older" [.text (decimal num)]) rfl
  | after num => by
      simpa [write_to, pieces, Listed, enclosed, fragment] using @Prints.push_str _ display_xpub
        key_information is_change address_index (enclosed "after" [.text (decimal num)]) rfl
  | sha256 hash | hash256 hash => .fragment _ (.text (hex_encode hash.toList))
  | ripemd160 hash | hash160 hash => .fragment _ (.text (hex_encode hash.toList))
  | andor x y z => by
      have hyz := (prints (1 :: path) leaf y).bind
        ((Prints.text [',']).bind (prints (2 :: path) leaf z))
      have hall := Prints.fragment "andor"
        ((prints (0 :: path) leaf x).bind ((Prints.text [',']).bind hyz))
      rw [pieces, List.append_assoc, List.cons_append]
      exact hall.mono fun ⟨hx, hy, hz⟩ => ⟨hx, trivial, hy, trivial, hz⟩
  | and_v x y | and_b x y | and_n x y | or_b x y | or_c x y | or_d x y | or_i x y =>
      .binary _ (prints (0 :: path) leaf x) (prints (1 :: path) leaf y)
  | thresh k descs => by
      have hopen := @Prints.push_str _ display_xpub key_information is_change address_index
        [.text "thresh(".toList, .text (decimal k)] rfl
      have hall := hopen.bind ((prints_scripts path leaf 0 descs).bind (Prints.text [')']))
      have hname : "thresh(".toList ++ decimal k =
          render (key_text display_xpub key_information is_change address_index)
            [.text "thresh(".toList, .text (decimal k)] := by
        simp
      rw [write_to, hname]
      exact hall.mono fun h => ⟨trivial, h, trivial⟩
  | a inner | s inner | c inner | t inner | d inner | v inner | j inner | n inner | l inner
  | u inner => .wrapper _ inner (prints (0 :: path) leaf inner)

theorem prints_scripts (path : List ℕ) (leaf : Leaf) :
    (i : ℕ) → (descs : List DescriptorTemplate) →
    Prints display_xpub key_information is_change address_index
      (write_scripts display_xpub key_information is_change address_index descs)
      (script_pieces path leaf i descs) (listed_scripts descs)
  | _, [] => .nothing
  | i, desc :: descs =>
      ((Prints.text [',']).bind ((prints (i :: path) leaf desc).bind
        (prints_scripts path leaf (i + 1) descs))).mono fun ⟨h, hs⟩ => ⟨trivial, h, hs⟩

theorem prints_tree (path : List ℕ) : (tree : Option TapTree) →
    Prints display_xpub key_information is_change address_index
      (write_tree display_xpub key_information is_change address_index tree)
      (tree_pieces path tree) (listed_tree tree)
  | none => .nothing
  | some tree =>
      ((Prints.text [',']).bind (prints_tap_tree (1 :: path) tree)).mono fun h => ⟨trivial, h⟩

theorem prints_tap_tree (path : List ℕ) : (tree : TapTree) →
    Prints display_xpub key_information is_change address_index
      (write_tap_tree display_xpub key_information is_change address_index tree)
      (tap_tree_pieces path tree) (listed_tap_tree tree)
  | .script desc => prints (0 :: path) _ desc
  | .branch left right => by
      have hright := (prints_tap_tree (1 :: path) right).bind (Prints.text ['}'])
      have hall := (Prints.text ['{']).bind
        ((prints_tap_tree (0 :: path) left).bind ((Prints.text [',']).bind hright))
      rw [tap_tree_pieces, List.append_assoc, List.cons_append, List.cons_append]
      exact hall.mono fun ⟨hl, hr⟩ => ⟨trivial, hl, trivial, hr, trivial⟩

end

end

end DescriptorTemplate

/-! ## Templates that are parsed

They have no thresholds of no keys. -/

/-- The templates of a syntax are listed. -/
def AllListed (S : Syntax DescriptorTemplate) : Prop := ∀ {v t}, S.text v t → v.Listed

theorem listed_key_args {constructor : KeyExpression → DescriptorTemplate} {ctx : ParseContext}
    (h : ∀ kp, (constructor kp).Listed) : AllListed (key_args constructor ctx) := by
  intro v t ⟨kp, hv, _⟩
  exact hv ▸ h kp

theorem listed_num_args {constructor : U32 → DescriptorTemplate} {max : U32}
    (h : ∀ num, (constructor num).Listed) : AllListed (num_args max constructor) := by
  intro v t ⟨num, hv, _⟩
  exact hv ▸ h num

theorem listed_hash_args {n : ℕ} {constructor : Vector U8 n → DescriptorTemplate}
    (h : ∀ hash, (constructor hash).Listed) : AllListed (hash_args n constructor) := by
  intro v t ⟨hash, hv, _⟩
  exact hv ▸ h hash

theorem listed_threshold_args {constructor : U32 → List KeyExpression → DescriptorTemplate}
    {ctx : ParseContext} {max_keys : ℕ} (h : ∀ k kps, kps ≠ [] → (constructor k kps).Listed) :
    AllListed (threshold_args constructor ctx max_keys) := by
  intro v t ⟨k, kps, kt, hv, hlen, _⟩
  rw [hv]
  refine h k kps fun hnil => ?_
  rw [hnil] at hlen
  simp at hlen

theorem listed_guarded {S : Syntax DescriptorTemplate} {allowed : Bool} (h : AllListed S) :
    AllListed (guarded allowed S) := fun ⟨_, hv⟩ => h hv

theorem listed_followed {S : Syntax DescriptorTemplate} (h : AllListed S)
    {descs : List DescriptorTemplate} {t : Text} (hs : Followed S.text descs t) :
    ∀ desc ∈ descs, desc.Listed := by
  induction descs generalizing t with
  | nil => simp
  | cons desc descs ih =>
      obtain ⟨t₁, t₂, hdesc, hdescs, -⟩ := hs
      rw [List.forall_mem_cons]
      exact ⟨h hdesc, ih hdescs⟩

theorem listed_unary_args {S : Syntax DescriptorTemplate}
    {constructor : DescriptorTemplate → DescriptorTemplate} (h : AllListed S)
    (hc : ∀ x, x.Listed → (constructor x).Listed) : AllListed (unary_args constructor S) := by
  intro v t ⟨x, hv, hx⟩
  exact hv ▸ hc x (listed_followed h hx.2 x (by simp))

theorem listed_binary_args {S : Syntax DescriptorTemplate}
    {constructor : DescriptorTemplate → DescriptorTemplate → DescriptorTemplate} (h : AllListed S)
    (hc : ∀ x y, x.Listed → y.Listed → (constructor x y).Listed) :
    AllListed (binary_args constructor S) := by
  intro v t ⟨x, y, hv, hxy⟩
  have hall := listed_followed h hxy.2
  exact hv ▸ hc x y (hall x (by simp)) (hall y (by simp))

theorem listed_andor_args {S : Syntax DescriptorTemplate} (h : AllListed S) :
    AllListed (andor_args S) := by
  intro v t ⟨x, y, z, hv, hxyz⟩
  have hall := listed_followed h hxyz.2
  exact hv ▸ ⟨hall x (by simp), hall y (by simp), hall z (by simp)⟩

theorem listed_thresh_args {S : Syntax DescriptorTemplate} (h : AllListed S) :
    AllListed (thresh_args S) := by
  intro v t ⟨k, descs, dt, hv, _, _, hdescs, _⟩
  have hall := listed_followed h hdescs
  have hscripts : ∀ l : List DescriptorTemplate, (∀ desc ∈ l, desc.Listed) → listed_scripts l := by
    intro l
    induction l with
    | nil => exact fun _ => trivial
    | cons desc l ih =>
        rw [List.forall_mem_cons]
        exact fun hl => ⟨hl.1, ih hl.2⟩
  exact hv ▸ hscripts descs hall

theorem listed_tr_args {T : Syntax TapTree} (h : ∀ {tree t}, T.text tree t → listed_tap_tree tree) :
    AllListed (tr_args T) := by
  intro v t ⟨kp, kt, _, hcases⟩
  rcases hcases with ⟨rfl, -⟩ | ⟨tree, tt, rfl, htree, -⟩
  · exact trivial
  · exact h htree

theorem listed_arguments {S : ParseContext → Syntax DescriptorTemplate} {T : Syntax TapTree}
    (h : ∀ ctx, AllListed (S ctx)) (hT : ∀ {tree t}, T.text tree t → listed_tap_tree tree)
    (ctx : ParseContext) : ∀ e ∈ arguments S T ctx, AllListed e.2 := by
  unfold arguments
  simp only [List.forall_mem_cons, List.not_mem_nil, false_imp_iff, implies_true, and_true]
  refine ⟨listed_threshold_args ?_, listed_threshold_args ?_, listed_threshold_args ?_,
    listed_threshold_args ?_, listed_thresh_args (h ctx),
    listed_guarded (listed_unary_args (h _) ?_), listed_guarded (listed_unary_args (h _) ?_),
    listed_guarded (listed_key_args ?_), listed_key_args ?_, listed_guarded (listed_tr_args hT),
    listed_key_args ?_, listed_key_args ?_, listed_key_args ?_, listed_num_args ?_,
    listed_num_args ?_, listed_hash_args ?_, listed_hash_args ?_, listed_hash_args ?_,
    listed_hash_args ?_, listed_andor_args (h ctx), listed_binary_args (h ctx) ?_,
    listed_binary_args (h ctx) ?_, listed_binary_args (h ctx) ?_, listed_binary_args (h ctx) ?_,
    listed_binary_args (h ctx) ?_, listed_binary_args (h ctx) ?_, listed_binary_args (h ctx) ?_⟩
  all_goals
    intros
    simp_all [Listed]

theorem listed_wrapped {S : Syntax DescriptorTemplate} (h : AllListed S) :
    AllListed (wrapped S) := by
  intro v t hv
  rcases hv with hv | ⟨w, inner, it, -, hinner, hwrap, -⟩
  · exact h hv
  · induction w generalizing v with
    | nil =>
        cases hwrap
        exact h hinner
    | cons c w ih =>
        obtain ⟨v', hv', hc⟩ := Option.bind_eq_some_iff.mp hwrap
        have hlisted := ih hv'
        unfold wrap at hc
        split at hc
        all_goals cases hc
        all_goals exact hlisted

theorem listed_descriptors (depth : ℕ) : (∀ ctx, AllListed (descriptors depth ctx)) ∧
    ∀ {tree t}, (tap_trees depth).text tree t → listed_tap_tree tree := by
  induction depth with
  | zero => exact ⟨fun _ _ _ h => h.elim, fun h => h.elim⟩
  | succ depth ih =>
      obtain ⟨hdesc, htree⟩ := ih
      refine ⟨fun ctx => listed_wrapped fun {v t} hv => ?_, fun {tree t} ht => ?_⟩
      · rcases hv with ⟨e, he, args, hv, -⟩ | ⟨rfl, -⟩ | ⟨rfl, -⟩
        · exact listed_arguments hdesc htree ctx e he hv
        · exact trivial
        · exact trivial
      · rcases ht with ⟨desc, rfl, hd⟩ | ⟨left, right, lt, rt, rfl, hleft, hright, -⟩
        · exact hdesc .taproot hd
        · exact ⟨htree hleft, htree hright⟩

theorem from_str_listed {t : DescriptorTemplate} {s s' : Text} (h : from_str s = .ok t s') :
    t.Listed :=
  (listed_descriptors MAX_PARSE_DEPTH).1 .topLevel (from_str_ok.mp h).1

/-! ## What is returned -/

section
variable {X : Type} (display_xpub : X → Text) (key_information : List (KeyInformation X))
variable (is_change : Bool) (address_index : U32)

/-- There is a descriptor exactly if there is a key for every index. Unless there is a threshold
of no keys, which is not parsed, it is what is printed for the template, with nothing changed but
key expressions. -/
theorem to_descriptor_exact (t : DescriptorTemplate) :
    t.display = render KeyExpression.display (t.pieces [] none) ∧
    (∀ text rest, from_str text = .ok t rest → t.Listed) ∧
    ∀ {σ : Type} (s : σ),
      ((∃ text s', t.to_descriptor display_xpub key_information is_change address_index s =
        .ok text s') ↔ InRange key_information (t.pieces [] none)) ∧
      (t.Listed → ∀ text s',
        t.to_descriptor display_xpub key_information is_change address_index s = .ok text s' →
          text = render (key_text display_xpub key_information is_change address_index)
            (t.pieces [] none)) := by
  refine ⟨t.display_eq [] none, fun _ _ h => from_str_listed h, fun {σ} s => ?_⟩
  have hprints : Prints display_xpub key_information is_change address_index _ _ _ :=
    t.prints [] none
  by_cases hrange : InRange key_information (t.pieces [] none)
  · obtain ⟨u, hu, hlisted⟩ := hprints.ok hrange
    have hrun : t.to_descriptor display_xpub key_information is_change address_index s =
        .ok u s := by
      simp only [to_descriptor, Exec.zoom, Exec.bind_apply_ok (hu []), List.nil_append]
      rfl
    refine ⟨⟨fun _ => hrange, fun _ => ⟨u, s, hrun⟩⟩, fun ht text s' h => ?_⟩
    rw [hrun] at h
    cases h
    exact hlisted ht
  · obtain ⟨w', hw'⟩ := hprints.fails hrange []
    have hrun : t.to_descriptor display_xpub key_information is_change address_index s =
        .err .invalidKeyIndex s := by
      simp only [to_descriptor, Exec.zoom, Exec.bind_apply_err hw']
      rfl
    refine ⟨⟨fun ⟨text, s', h⟩ => ?_, fun h => absurd h hrange⟩, fun _ text s' h => ?_⟩
    · rw [hrun] at h
      cases h
    · rw [hrun] at h
      cases h

end

/-- `multi(1)`, with a comma. -/
theorem to_descriptor_multi_nil : ¬ ∀ (t : DescriptorTemplate) (text : Text) (s' : Unit),
    t.to_descriptor (fun _ : Unit => []) [] false 0 () = .ok text s' →
      text = render (key_text (fun _ : Unit => []) [] false 0) (t.pieces [] none) := by
  intro h
  have htext := h (.multi 1 []) "multi(1,)".toList () rfl
  revert htext
  decide +kernel

end Vanadium.Bip388
