import Vanadium.Bip388.Enumerate
import Vanadium.Proofs.Permutations
import Vanadium.Proofs.Placeholders

/-!
# Templates that differ in the order of their derivations

A loop over the places of a template reads and writes its key expressions one after the
other, and nothing else of it. So the result is known from the key expressions that the
loop writes: it is the template that has them in place of its own.

The orders that are chosen say which pair each key expression gets. Two choices give
different templates, because the pairs for different places of a group are different, and
what has the pairs of a group in any order comes from a choice.
-/

namespace Vanadium.Bip388

open Lib DescriptorTemplate

/-! ## Key expressions -/

mutual

/-- What the iterator over the key expressions yields, without the leaves. -/
theorem key_exprs_eq (path : List ℕ) (leaf : Leaf) : (t : DescriptorTemplate) →
    t.key_exprs = (placeholders_of (t.pieces path leaf)).map fun kp => kp.1.val
  | sh inner | wsh inner => by
      simpa [key_exprs, pieces] using key_exprs_eq (0 :: path) leaf inner
  | a inner | s inner | c inner | t inner | d inner | v inner | j inner | n inner | l inner
  | u inner => by simpa [key_exprs, pieces] using key_exprs_eq (0 :: path) leaf inner
  | pkh kp | wpkh kp | pk kp | pk_k kp | pk_h kp => by simp [key_exprs, pieces]
  | sortedmulti k kps | sortedmulti_a k kps | multi k kps | multi_a k kps => by
      rw [pieces, placeholders_of_threshold_pieces]
      simpa [key_exprs, Function.comp_def] using (key_exprs_parts path 0 kps)
  | tr kp tree => by simpa [key_exprs, pieces] using tree_key_exprs_eq path tree
  | zero | one | older _ | after _ | sha256 _ | ripemd160 _ | hash256 _ | hash160 _ => by
      simp [key_exprs, pieces]
  | andor x y z => by
      have hx := key_exprs_eq (0 :: path) leaf x
      have hy := key_exprs_eq (1 :: path) leaf y
      have hz := key_exprs_eq (2 :: path) leaf z
      simp [key_exprs, pieces, hx, hy, hz]
  | and_v x y | and_b x y | and_n x y | or_b x y | or_c x y | or_d x y | or_i x y => by
      have hx := key_exprs_eq (0 :: path) leaf x
      have hy := key_exprs_eq (1 :: path) leaf y
      simp [key_exprs, pieces, hx, hy]
  | thresh k descs => by simpa [key_exprs, pieces] using scripts_key_exprs_eq path leaf 0 descs

theorem key_exprs_parts (path : List ℕ) (i : ℕ) : (kps : List KeyExpression) →
    kps = (Ref.parts path i kps).map fun kp => kp.val
  | [] => rfl
  | kp :: kps => by
      rw [Ref.parts, List.map_cons, ← key_exprs_parts path (i + 1) kps]

theorem scripts_key_exprs_eq (path : List ℕ) (leaf : Leaf) (i : ℕ) :
    (descs : List DescriptorTemplate) →
    scripts_key_exprs descs =
      (placeholders_of (script_pieces path leaf i descs)).map fun kp => kp.1.val
  | [] => rfl
  | desc :: descs => by
      have hdesc := key_exprs_eq (i :: path) leaf desc
      have hdescs := scripts_key_exprs_eq path leaf (i + 1) descs
      simp [scripts_key_exprs, script_pieces, hdesc, hdescs]

theorem tree_key_exprs_eq (path : List ℕ) : (tree : Option TapTree) →
    tree_key_exprs tree = (placeholders_of (tree_pieces path tree)).map fun kp => kp.1.val
  | none => rfl
  | some tree => by simpa [tree_key_exprs, tree_pieces] using tap_tree_key_exprs_eq (1 :: path) tree

theorem tap_tree_key_exprs_eq (path : List ℕ) : (tree : TapTree) →
    tap_tree_key_exprs tree =
      (placeholders_of (tap_tree_pieces path tree)).map fun kp => kp.1.val
  | .script desc => by
      simpa [tap_tree_key_exprs, tap_tree_pieces] using
        key_exprs_eq (0 :: path) (some ⟨0 :: path, desc⟩) desc
  | .branch left right => by
      have hleft := tap_tree_key_exprs_eq (0 :: path) left
      have hright := tap_tree_key_exprs_eq (1 :: path) right
      simp [tap_tree_key_exprs, tap_tree_pieces, hleft, hright]

end

/-! ## What a loop over the places writes -/

/-- The next key expression of a list is written. -/
def pop (_ : KeyExpression) : StateT (List KeyExpression) Option KeyExpression
  | [] => none
  | kp :: kps => some (kp, kps)

/-- What is run writes key expressions for `kps`, one after the other, and they determine
the result. -/
def Writes {α : Type} (keys : α → List KeyExpression) (kps : List KeyExpression)
    (run : (σ : Type) → (KeyExpression → StateT σ Option KeyExpression) → StateT σ Option α) :
    Prop :=
  ∀ (σ : Type) (body : KeyExpression → StateT σ Option KeyExpression) (s s' : σ)
    (ks : List KeyExpression), write_keys body kps s = some (ks, s') →
      ∃ x, run σ body s = some (x, s') ∧ keys x = ks ∧
        ∀ rest, run (List KeyExpression) pop (ks ++ rest) = some (x, rest)

theorem bind_eq_some {σ α β : Type} {x : StateT σ Option α} {f : α → StateT σ Option β} {s s' : σ}
    {y : β} : (x >>= f) s = some (y, s') ↔ ∃ z s₁, x s = some (z, s₁) ∧ f z s₁ = some (y, s') := by
  change (x s).bind (fun p => f p.1 p.2) = some (y, s') ↔ _
  rw [Option.bind_eq_some_iff]
  exact ⟨fun ⟨p, hp, hf⟩ => ⟨p.1, p.2, hp, hf⟩, fun ⟨z, s₁, hp, hf⟩ => ⟨(z, s₁), hp, hf⟩⟩

theorem write_keys_cons {σ : Type} {body : KeyExpression → StateT σ Option KeyExpression}
    {kp : KeyExpression} {kps l : List KeyExpression} {s s' : σ} :
    write_keys body (kp :: kps) s = some (l, s') ↔
      ∃ k s₁ ks, body kp s = some (k, s₁) ∧ write_keys body kps s₁ = some (ks, s') ∧
        l = k :: ks := by
  rw [write_keys, bind_eq_some]
  refine ⟨fun ⟨k, s₁, hk, h⟩ => ?_, fun ⟨k, s₁, ks, hk, hks, hl⟩ => ?_⟩
  · obtain ⟨ks, s₂, hks, h⟩ := bind_eq_some.mp h
    cases h
    exact ⟨k, s₁, ks, hk, hks, rfl⟩
  · rw [hl]
    exact ⟨k, s₁, hk, bind_eq_some.mpr ⟨ks, s', hks, rfl⟩⟩

theorem write_keys_append {σ : Type} {body : KeyExpression → StateT σ Option KeyExpression}
    {kps kps' l : List KeyExpression} {s s' : σ} :
    write_keys body (kps ++ kps') s = some (l, s') ↔
      ∃ ks s₁ ks', write_keys body kps s = some (ks, s₁) ∧
        write_keys body kps' s₁ = some (ks', s') ∧ l = ks ++ ks' := by
  induction kps generalizing s l with
  | nil =>
      refine ⟨fun h => ⟨[], s, l, rfl, h, rfl⟩, fun ⟨ks, s₁, ks', hks, hks', hl⟩ => ?_⟩
      cases hks
      rw [hl]
      exact hks'
  | cons kp kps ih =>
      rw [List.cons_append, write_keys_cons]
      refine ⟨fun ⟨k, s₁, l', hk, hl', hl⟩ => ?_, fun ⟨ks, s₂, ks', hks, hks', hl⟩ => ?_⟩
      · obtain ⟨ks, s₂, ks', hks, hks', h⟩ := ih.mp hl'
        exact ⟨k :: ks, s₂, ks', write_keys_cons.mpr ⟨k, s₁, ks, hk, hks, rfl⟩, hks', by
          rw [hl, h, List.cons_append]⟩
      · obtain ⟨k, s₁, ks, hk, hks, h⟩ := write_keys_cons.mp hks
        exact ⟨k, s₁, ks ++ ks', hk, ih.mpr ⟨ks, s₂, ks', hks, hks', rfl⟩, by
          rw [hl, h, List.cons_append]⟩

namespace Writes

variable {α β γ δ : Type} {keys : α → List KeyExpression} {keys' : β → List KeyExpression}
  {keys'' : γ → List KeyExpression} {of : δ → List KeyExpression}
  {kps kps' kps'' : List KeyExpression}
  {run : (σ : Type) → (KeyExpression → StateT σ Option KeyExpression) → StateT σ Option α}
  {run' : (σ : Type) → (KeyExpression → StateT σ Option KeyExpression) → StateT σ Option β}
  {run'' : (σ : Type) → (KeyExpression → StateT σ Option KeyExpression) → StateT σ Option γ}

theorem nothing {x : α} (h : keys x = []) : Writes keys [] fun _ _ => pure x := by
  intro σ body s s' ks hks
  cases hks
  exact ⟨x, rfl, h, fun _ => rfl⟩

theorem key (kp : KeyExpression) : Writes (fun k => [k]) [kp] fun _ body => body kp := by
  intro σ body s s' l hl
  obtain ⟨k, s₁, ks, hk, hks, rfl⟩ := write_keys_cons.mp hl
  cases hks
  exact ⟨k, hk, rfl, fun _ => rfl⟩

theorem key_list (kps : List KeyExpression) :
    Writes (fun ks => ks) kps fun _ body => write_keys body kps := by
  induction kps with
  | nil => exact nothing rfl
  | cons kp kps ih =>
      intro σ body s s' l hl
      obtain ⟨k, s₁, ks, hk, hks, rfl⟩ := write_keys_cons.mp hl
      obtain ⟨ks', _, rfl, hpop⟩ := ih σ body s₁ s' ks hks
      exact ⟨k :: ks', hl, rfl, fun rest =>
        write_keys_cons.mpr ⟨k, ks' ++ rest, ks', rfl, hpop rest, rfl⟩⟩

theorem one (h : Writes keys kps run) {c : α → δ} (hc : ∀ x, of (c x) = keys x) :
    Writes of kps fun σ body => do return c (← run σ body) := by
  intro σ body s s' ks hks
  obtain ⟨x, hx, hkeys, hpop⟩ := h σ body s s' ks hks
  exact ⟨c x, bind_eq_some.mpr ⟨x, s', hx, rfl⟩, (hc x).trans hkeys, fun rest =>
    bind_eq_some.mpr ⟨x, rest, hpop rest, rfl⟩⟩

theorem two (h : Writes keys kps run) (h' : Writes keys' kps' run') {c : α → β → δ}
    (hc : ∀ x y, of (c x y) = keys x ++ keys' y) :
    Writes of (kps ++ kps') fun σ body => do return c (← run σ body) (← run' σ body) := by
  intro σ body s s' l hl
  obtain ⟨ks, s₁, ks', hks, hks', rfl⟩ := write_keys_append.mp hl
  obtain ⟨x, hx, rfl, hpop⟩ := h σ body s s₁ ks hks
  obtain ⟨y, hy, rfl, hpop'⟩ := h' σ body s₁ s' ks' hks'
  refine ⟨c x y, bind_eq_some.mpr ⟨x, s₁, hx, bind_eq_some.mpr ⟨y, s', hy, rfl⟩⟩, hc x y, ?_⟩
  intro rest
  rw [List.append_assoc]
  exact bind_eq_some.mpr ⟨x, _, hpop _, bind_eq_some.mpr ⟨y, rest, hpop' rest, rfl⟩⟩

theorem three (h : Writes keys kps run) (h' : Writes keys' kps' run')
    (h'' : Writes keys'' kps'' run'') {c : α → β → γ → δ}
    (hc : ∀ x y z, of (c x y z) = keys x ++ keys' y ++ keys'' z) :
    Writes of (kps ++ kps' ++ kps'') fun σ body => do
      return c (← run σ body) (← run' σ body) (← run'' σ body) := by
  intro σ body s s' l hl
  obtain ⟨l₁, s₂, ks'', hl₁, hks'', rfl⟩ := write_keys_append.mp hl
  obtain ⟨ks, s₁, ks', hks, hks', rfl⟩ := write_keys_append.mp hl₁
  obtain ⟨x, hx, rfl, hpop⟩ := h σ body s s₁ ks hks
  obtain ⟨y, hy, rfl, hpop'⟩ := h' σ body s₁ s₂ ks' hks'
  obtain ⟨z, hz, rfl, hpop''⟩ := h'' σ body s₂ s' ks'' hks''
  refine ⟨c x y z, bind_eq_some.mpr ⟨x, s₁, hx, bind_eq_some.mpr ⟨y, s₂, hy,
    bind_eq_some.mpr ⟨z, s', hz, rfl⟩⟩⟩, hc x y z, ?_⟩
  intro rest
  rw [List.append_assoc, List.append_assoc]
  exact bind_eq_some.mpr ⟨x, _, hpop _, bind_eq_some.mpr ⟨y, _, hpop' _,
    bind_eq_some.mpr ⟨z, rest, hpop'' rest, rfl⟩⟩⟩

end Writes

mutual

theorem writes : (t : DescriptorTemplate) → Writes key_exprs t.key_exprs fun _ body => t.write body
  | sh inner | wsh inner | a inner | s inner | c inner | t inner | d inner | v inner | j inner
  | n inner | l inner | u inner => (writes inner).one fun _ => rfl
  | pkh kp | wpkh kp | pk kp | pk_k kp | pk_h kp => (Writes.key kp).one fun _ => rfl
  | sortedmulti _ kps | sortedmulti_a _ kps | multi _ kps | multi_a _ kps =>
      (Writes.key_list kps).one fun _ => rfl
  | tr kp tree => (Writes.key kp).two (writes_tree tree) fun _ _ => rfl
  | zero | one | older _ | after _ | sha256 _ | ripemd160 _ | hash256 _ | hash160 _ =>
      Writes.nothing rfl
  | andor x y z => (writes x).three (writes y) (writes z) fun _ _ _ => rfl
  | and_v x y | and_b x y | and_n x y | or_b x y | or_c x y | or_d x y | or_i x y =>
      (writes x).two (writes y) fun _ _ => rfl
  | thresh _ descs => (writes_scripts descs).one fun _ => rfl

theorem writes_scripts : (descs : List DescriptorTemplate) →
    Writes scripts_key_exprs (scripts_key_exprs descs) fun _ body => write_scripts body descs
  | [] => Writes.nothing rfl
  | desc :: descs => (writes desc).two (writes_scripts descs) fun _ _ => rfl

theorem writes_tree : (tree : Option TapTree) →
    Writes tree_key_exprs (tree_key_exprs tree) fun _ body => write_tree body tree
  | none => Writes.nothing rfl
  | some tree => (writes_tap_tree tree).one fun _ => rfl

theorem writes_tap_tree : (tree : TapTree) →
    Writes tap_tree_key_exprs (tap_tree_key_exprs tree) fun _ body => write_tap_tree body tree
  | .script desc => (writes desc).one fun _ => rfl
  | .branch left right => (writes_tap_tree left).two (writes_tap_tree right) fun _ _ => rfl

end

namespace Cleartext

/-! ## Pairs -/

def canonical (p : ℕ) : U32 × U32 := (BitVec.ofNat 32 (2 * p), BitVec.ofNat 32 (2 * p + 1))

theorem canonical_pair_eq {p : ℕ} (h : p < 2 ^ 31) : canonical_pair p = some (canonical p) := by
  rw [canonical_pair, Nat.mod_eq_of_lt (by omega)]
  exact if_pos (by omega)

theorem canonical_pair_overflow : canonical_pair (2 ^ 31) = none := by decide

theorem canonical_inj {p q : ℕ} (hp : p < 2 ^ 31) (hq : q < 2 ^ 31)
    (h : canonical p = canonical q) : p = q := by
  have hfst := congrArg (fun pair : U32 × U32 => pair.1.toNat) h
  simp only [canonical, BitVec.toNat_ofNat] at hfst
  rw [Nat.mod_eq_of_lt (by omega), Nat.mod_eq_of_lt (by omega)] at hfst
  omega

theorem map_canonical_inj {l l' : List ℕ} (hl : ∀ p ∈ l, p < 2 ^ 31) (hl' : ∀ p ∈ l', p < 2 ^ 31)
    (h : l.map canonical = l'.map canonical) : l = l' := by
  induction l generalizing l' with
  | nil => exact (List.map_eq_nil_iff.mp h.symm).symm
  | cons p l ih =>
      obtain ⟨q, l', rfl⟩ : ∃ q rest, l' = q :: rest :=
        List.exists_cons_of_ne_nil fun h' => (by rw [h'] at h; cases h)
      obtain ⟨hp, hl⟩ := List.forall_mem_cons.mp hl
      obtain ⟨hq, hl'⟩ := List.forall_mem_cons.mp hl'
      rw [List.map_cons, List.map_cons, List.cons.injEq] at h
      rw [canonical_inj hp hq h.1, ih hl hl' h.2]

/-! ## Groups -/

variable {kps : List KeyExpression} {key : KeyExpressionType}

theorem mem_positions {i : ℕ} : i ∈ positions kps key ↔ (kps[i]?.map (·.key_type)) = some key := by
  rw [positions, List.mem_filter, decide_eq_true_iff]
  refine ⟨fun h => h.2, fun h => ⟨List.mem_range.mpr ?_, h⟩⟩
  by_contra hge
  rw [List.getElem?_eq_none (by omega)] at h
  cases h

theorem nodup_positions : (positions kps key).Nodup := List.nodup_range.filter _

/-- What is found at the positions of a key expression. -/
theorem map_positions {α : Type} (f : KeyExpression → α) (g : ℕ → α)
    (hg : ∀ i kp, kps[i]? = some kp → g i = f kp) :
    (positions kps key).map g = (kps.filter fun kp => kp.key_type = key).map f := by
  induction kps using List.reverseRecOn with
  | nil => rfl
  | append_singleton kps kp ih =>
      have hlast : (kps ++ [kp])[kps.length]? = some kp := by simp
      have hinit : positions kps key =
          (List.range kps.length).filter fun i =>
            ((kps ++ [kp])[i]?.map (·.key_type)) = some key := by
        refine List.filter_congr fun i hi => ?_
        rw [List.getElem?_append_left (List.mem_range.mp hi)]
      have ih := ih fun i kp' hi => hg i kp' (by
        rw [List.getElem?_append_left (List.getElem?_eq_some_iff.mp hi).1, hi])
      rw [positions, List.length_append, List.length_singleton, List.range_succ, List.filter_append,
        ← hinit, List.map_append, ih, List.filter_append, List.map_append]
      congr 1
      cases hkey : decide (kp.key_type = key) with
      | true => simp [of_decide_eq_true hkey, hg _ _ hlast]
      | false => simp [of_decide_eq_false hkey]

theorem length_positions : (positions kps key).length = kps.countP fun kp => kp.key_type = key := by
  have h := congrArg List.length
    (@map_positions kps key _ (fun _ => ()) (fun _ => ()) fun _ _ _ => rfl)
  rwa [List.length_map, List.length_map, ← List.countP_eq_length_filter] at h

/-- The key expressions that there are, in the order of the groups. -/
def group_keys (kps : List KeyExpression) : List KeyExpressionType :=
  (kps.map (·.key_type)).dedup.mergeSort key_type_le

theorem mem_group_keys : key ∈ group_keys kps ↔ ∃ kp ∈ kps, kp.key_type = key := by
  rw [group_keys, List.mem_mergeSort, List.mem_dedup, List.mem_map]

theorem nodup_group_keys : (group_keys kps).Nodup :=
  (List.mergeSort_perm _ _).nodup_iff.mpr (List.nodup_dedup _)

theorem positions_per_group_eq : positions_per_group kps = (group_keys kps).map (positions kps) :=
  rfl

theorem nodup_flatten_groups : (positions_per_group kps).flatten.Nodup := by
  rw [positions_per_group_eq, ← List.flatMap_def, List.nodup_flatMap]
  refine ⟨fun _ _ => nodup_positions, nodup_group_keys.imp fun {key key'} hne i hi hi' => hne ?_⟩
  exact Option.some.inj ((mem_positions.mp hi).symm.trans (mem_positions.mp hi'))

theorem mem_flatten_groups {i : ℕ} (h : i < kps.length) :
    i ∈ (positions_per_group kps).flatten := by
  have hget := List.getElem?_eq_getElem h
  rw [positions_per_group_eq, ← List.flatMap_def, List.mem_flatMap]
  exact ⟨kps[i].key_type, mem_group_keys.mpr ⟨_, List.getElem_mem h, rfl⟩, mem_positions.mpr (by
    rw [hget]; rfl)⟩

theorem group_pos {group : List ℕ} (h : group ∈ positions_per_group kps) : 0 < group.length := by
  rw [positions_per_group_eq] at h
  obtain ⟨key, hkey, rfl⟩ := List.mem_map.mp h
  obtain ⟨kp, hkp, rfl⟩ := mem_group_keys.mp hkey
  rw [length_positions]
  exact List.countP_pos_iff.mpr ⟨kp, hkp, decide_eq_true rfl⟩

/-! ## What an order says -/

/-- Each position of the groups, with its place in the order for its group. -/
def slots (groups chosen : List (List ℕ)) : List (ℕ × ℕ) :=
  (groups.zip chosen).flatMap fun group => group.1.zip group.2

theorem slots_fst {groups chosen : List (List ℕ)}
    (h : List.Forall₂ (fun c g => c.length = g.length) chosen groups) :
    (slots groups chosen).map Prod.fst = groups.flatten := by
  induction h with
  | nil => rfl
  | @cons c g chosen groups hlength _ ih =>
      have hzip : (g.zip c).map Prod.fst = g := List.map_fst_zip hlength.ge
      rw [slots] at ih ⊢
      rw [List.zip_cons_cons, List.flatMap_cons, List.map_append, hzip, ih, List.flatten_cons]

theorem slots_snd {groups chosen : List (List ℕ)}
    (h : List.Forall₂ (fun c g => c.length = g.length) chosen groups) :
    (slots groups chosen).map Prod.snd = chosen.flatten := by
  induction h with
  | nil => rfl
  | @cons c g chosen groups hlength _ ih =>
      have hzip : (g.zip c).map Prod.snd = c := List.map_snd_zip hlength.le
      rw [slots] at ih ⊢
      rw [List.zip_cons_cons, List.flatMap_cons, List.map_append, hzip, ih, List.flatten_cons]

/-- What the groups get is what was chosen for them. -/
theorem map_groups {α : Type} {f g : ℕ → α} {groups chosen : List (List ℕ)}
    (h : List.Forall₂ (fun c g => c.length = g.length) chosen groups)
    (hf : ∀ x ∈ slots groups chosen, f x.1 = g x.2) :
    groups.map (List.map f) = chosen.map (List.map g) := by
  induction h with
  | nil => rfl
  | @cons c group chosen groups hlength _ ih =>
      rw [slots, List.zip_cons_cons, List.flatMap_cons] at hf
      have hgroup : group.map f = c.map g := by
        have hfst : (group.zip c).map Prod.fst = group := List.map_fst_zip hlength.ge
        have hsnd : (group.zip c).map Prod.snd = c := List.map_snd_zip hlength.le
        calc group.map f = ((group.zip c).map Prod.fst).map f := by rw [hfst]
          _ = (group.zip c).map fun x => f x.1 := List.map_map
          _ = (group.zip c).map fun x => g x.2 :=
              List.map_congr_left fun x hx => hf x (List.mem_append_left _ hx)
          _ = ((group.zip c).map Prod.snd).map g := List.map_map.symm
          _ = c.map g := by rw [hsnd]
      rw [List.map_cons, List.map_cons, hgroup,
        ih fun x hx => hf x (List.mem_append_right _ hx)]

theorem insert_all {xs : List (ℕ × ℕ)} (hnodup : (xs.map Prod.fst).Nodup)
    (hsmall : ∀ x ∈ xs, x.2 < 2 ^ 31) (m : ℕ → Option (U32 × U32)) :
    ∃ m', xs.foldlM (fun mapping x => do
        let pair ← canonical_pair x.2
        some (Function.update mapping x.1 (some pair))) m = some m' ∧
      (∀ x ∈ xs, m' x.1 = some (canonical x.2)) ∧ ∀ i ∉ xs.map Prod.fst, m' i = m i := by
  induction xs generalizing m with
  | nil => exact ⟨m, rfl, fun x hx => (by cases hx), fun _ _ => rfl⟩
  | cons x xs ih =>
      obtain ⟨hx, hxs⟩ := List.forall_mem_cons.mp hsmall
      rw [List.map_cons, List.nodup_cons] at hnodup
      obtain ⟨m', hm', hmem, hother⟩ :=
        ih hnodup.2 hxs (Function.update m x.1 (some (canonical x.2)))
      refine ⟨m', ?_, fun y hy => ?_, fun i hi => ?_⟩
      · rw [List.foldlM_cons, canonical_pair_eq hx]
        exact hm'
      · rcases List.mem_cons.mp hy with rfl | hy
        · rw [hother _ hnodup.1, Function.update_self]
        · exact hmem y hy
      · rw [List.map_cons, List.mem_cons, not_or] at hi
        rw [hother i hi.2, Function.update_of_ne hi.1]

theorem insert_overflow {xs : List (ℕ × ℕ)} {x : ℕ × ℕ} (hx : x ∈ xs)
    (h : canonical_pair x.2 = none) (m : ℕ → Option (U32 × U32)) :
    (xs.foldlM (fun mapping x => do
      let pair ← canonical_pair x.2
      some (Function.update mapping x.1 (some pair))) m) = none := by
  induction xs generalizing m with
  | nil => cases hx
  | cons y xs ih =>
      rw [List.foldlM_cons]
      rcases List.mem_cons.mp hx with rfl | hx
      · rw [h]
        rfl
      · cases canonical_pair y.2 with
        | none => rfl
        | some pair => exact ih hx _

/-- The key expressions with the pairs for their positions. -/
def numbered (f : ℕ → U32 × U32) (kps : List KeyExpression) : List KeyExpression :=
  kps.mapIdx fun i kp => { kp with num1 := (f i).1, num2 := (f i).2 }

theorem numbered_cons (f : ℕ → U32 × U32) (kp : KeyExpression) (kps : List KeyExpression) :
    numbered f (kp :: kps) =
      { kp with num1 := (f 0).1, num2 := (f 0).2 } :: numbered (fun i => f (i + 1)) kps :=
  List.mapIdx_cons

theorem numbered_get {f : ℕ → U32 × U32} {i : ℕ} {kp : KeyExpression}
    (h : (numbered f kps)[i]? = some kp) : (kp.num1, kp.num2) = f i := by
  rw [numbered, List.getElem?_mapIdx] at h
  obtain ⟨_, _, rfl⟩ := Option.map_eq_some_iff.mp h
  rfl

theorem numbered_key_types (f : ℕ → U32 × U32) (kps : List KeyExpression) :
    (numbered f kps).map (·.key_type) = kps.map (·.key_type) := by
  induction kps generalizing f with
  | nil => rfl
  | cons kp kps ih => rw [numbered_cons, List.map_cons, List.map_cons, ih]

theorem positions_congr {kps' : List KeyExpression}
    (h : kps'.map (·.key_type) = kps.map (·.key_type)) :
    positions kps' key = positions kps key := by
  have hlength : kps'.length = kps.length := by simpa using congrArg List.length h
  rw [positions, positions, hlength]
  refine List.filter_congr fun i _ => ?_
  rw [← List.getElem?_map, ← List.getElem?_map, h]

theorem write_renumber {m : ℕ → Option (U32 × U32)} {f : ℕ → U32 × U32} {idx : ℕ}
    (h : ∀ i < kps.length, m (idx + i) = some (f i)) :
    write_keys (renumber m) kps idx = some (numbered f kps, idx + kps.length) := by
  induction kps generalizing idx f with
  | nil => rfl
  | cons kp kps ih =>
      have hrest := @ih (fun i => f (i + 1)) (idx + 1) fun i hi => by
        rw [show idx + 1 + i = idx + (i + 1) by omega]
        exact h (i + 1) (by simpa using hi)
      have hfirst : renumber m kp idx =
          some ({ kp with num1 := (f 0).1, num2 := (f 0).2 }, idx + 1) := by
        have h0 : m idx = some (f 0) := h 0 (Nat.succ_pos _)
        rw [renumber, h0]
        rfl
      rw [numbered_cons, List.length_cons,
        show idx + (kps.length + 1) = idx + 1 + kps.length by omega]
      exact write_keys_cons.mpr ⟨_, _, _, hfirst, hrest, rfl⟩

/-! ## All choices -/

theorem forall₂_mem {α β : Type} {R : α → β → Prop} {l : List α} {l' : List β}
    (h : List.Forall₂ R l l') {x : α} (hx : x ∈ l) : ∃ y ∈ l', R x y := by
  induction h with
  | nil => cases hx
  | cons hxy _ ih =>
      rcases List.mem_cons.mp hx with rfl | hx
      · exact ⟨_, List.mem_cons_self, hxy⟩
      · obtain ⟨y, hy, hR⟩ := ih hx
        exact ⟨y, List.mem_cons_of_mem _ hy, hR⟩

/-- The orders that a group can have. -/
def all_orders (group : List ℕ) : List (List ℕ) :=
  Orders.orders group.length (List.range group.length)

theorem mem_all_choices {groups chosen : List (List ℕ)} :
    chosen ∈ Orders.choices (groups.map all_orders) ↔
      List.Forall₂ (fun c g => c.Perm (List.range g.length)) chosen groups := by
  have hmem : ∀ c g, c ∈ all_orders g ↔ c.Perm (List.range g.length) := fun _ _ =>
    Orders.mem_orders List.length_range
  rw [Orders.mem_choices, List.forall₂_map_right_iff]
  exact ⟨fun h => h.imp fun c g => (hmem c g).mp, fun h => h.imp fun c g => (hmem c g).mpr⟩

theorem expand_rec_cons {groups chosen : List (List ℕ)} {positions : List (List ℕ)}
    {group : List ℕ} {base : DescriptorTemplate} (hpos : 0 < group.length) :
    expand_derivation_orderings_rec positions base (group :: groups) chosen =
      ((all_orders group).mapM fun perm =>
        expand_derivation_orderings_rec positions base groups (chosen ++ [perm])).map
          List.flatten := by
  rw [expand_derivation_orderings_rec, orders_eq hpos]
  cases hall : (all_orders group).mapM fun perm =>
    expand_derivation_orderings_rec positions base groups (chosen ++ [perm]) with
  | none =>
      rw [all_orders] at hall
      simp only [Option.bind_eq_bind, Option.bind_some, hall]
      rfl
  | some results =>
      rw [all_orders] at hall
      simp only [Option.bind_eq_bind, Option.bind_some, hall]
      rfl

/-- If each choice gives a template, the templates of the choices are listed. -/
theorem expand_rec_eq_some {positions : List (List ℕ)} {base : DescriptorTemplate}
    {template : List (List ℕ) → DescriptorTemplate} {groups chosen : List (List ℕ)}
    (hpos : ∀ g ∈ groups, 0 < g.length)
    (h : ∀ c ∈ Orders.choices (groups.map all_orders),
      expand_derivation_orderings_rec positions base [] (chosen ++ c) =
        some [template (chosen ++ c)]) :
    expand_derivation_orderings_rec positions base groups chosen =
      some ((Orders.choices (groups.map all_orders)).map fun c => template (chosen ++ c)) := by
  induction groups generalizing chosen with
  | nil =>
      have hnil := h [] (List.mem_singleton_self [])
      rw [List.append_nil] at hnil
      rw [hnil, List.map_nil, Orders.choices, List.map_singleton, List.append_nil]
  | cons group groups ih =>
      obtain ⟨hgroup, hpos⟩ := List.forall_mem_cons.mp hpos
      rw [List.map_cons, Orders.choices] at h ⊢
      have hall : ∀ perm ∈ all_orders group,
          expand_derivation_orderings_rec positions base groups (chosen ++ [perm]) =
            some ((Orders.choices (groups.map all_orders)).map fun c =>
              template (chosen ++ [perm] ++ c)) := by
        intro perm hperm
        refine ih hpos fun c hc => ?_
        rw [List.append_assoc, List.singleton_append]
        exact h _ (List.mem_flatMap.mpr ⟨perm, hperm, List.mem_map_of_mem hc⟩)
      rw [expand_rec_cons hgroup, Orders.mapM_eq_some hall, Option.map_some, List.map_flatMap,
        List.flatMap_def]
      simp only [List.map_map, Function.comp_def, List.append_assoc, List.singleton_append]

theorem expand_rec_eq_none {positions : List (List ℕ)} {base : DescriptorTemplate}
    {groups chosen c : List (List ℕ)} (hpos : ∀ g ∈ groups, 0 < g.length)
    (hc : c ∈ Orders.choices (groups.map all_orders))
    (h : expand_derivation_orderings_rec positions base [] (chosen ++ c) = none) :
    expand_derivation_orderings_rec positions base groups chosen = none := by
  induction groups generalizing chosen c with
  | nil =>
      rw [List.mem_singleton.mp hc, List.append_nil] at h
      exact h
  | cons group groups ih =>
      obtain ⟨hgroup, hpos⟩ := List.forall_mem_cons.mp hpos
      rw [List.map_cons, Orders.choices] at hc
      obtain ⟨perm, hperm, hcons⟩ := List.mem_flatMap.mp hc
      obtain ⟨c', hc', rfl⟩ := List.mem_map.mp hcons
      have hnone := @ih (chosen ++ [perm]) c' hpos hc' (by
        rwa [List.append_assoc, List.singleton_append])
      rw [expand_rec_cons hgroup, Orders.mapM_eq_none hperm hnone]
      rfl

/-! ## The templates -/

/-- The pairs of a key expression are those for its places, in any order. -/
structure Assigns (base t : DescriptorTemplate) : Prop where
  /-- It is the template with other key expressions, … -/
  shape : base.write pop t.key_exprs = some (t, [])
  /-- … which differ in the derivations only. -/
  key_types : t.key_exprs.map (·.key_type) = base.key_exprs.map (·.key_type)
  pairs : ∀ key,
    ((t.key_exprs.filter fun kp => kp.key_type = key).map fun kp => (kp.num1, kp.num2)).Perm
      ((List.range (base.key_exprs.countP fun kp => kp.key_type = key)).map canonical)

/-- What a choice gives. -/
theorem chosen_template {base : DescriptorTemplate} {chosen : List (List ℕ)}
    (hchosen : List.Forall₂ (fun c g => c.Perm (List.range g.length)) chosen
      (positions_per_group base.key_exprs))
    (hsmall : ∀ g ∈ positions_per_group base.key_exprs, g.length ≤ 2 ^ 31) :
    ∃ t f, expand_derivation_orderings_rec (positions_per_group base.key_exprs) base [] chosen =
        some [t] ∧ t.key_exprs = numbered f base.key_exprs ∧
      base.write pop t.key_exprs = some (t, []) ∧
      (positions_per_group base.key_exprs).map (List.map f) =
        chosen.map (List.map canonical) := by
  have hlength : List.Forall₂ (fun (c g : List ℕ) => c.length = g.length) chosen
      (positions_per_group base.key_exprs) :=
    hchosen.imp fun c g h => by rw [h.length_eq, List.length_range]
  have hless : ∀ x ∈ slots (positions_per_group base.key_exprs) chosen, x.2 < 2 ^ 31 := by
    intro x hx
    have hmem : x.2 ∈ chosen.flatten := by
      rw [← slots_snd hlength]
      exact List.mem_map_of_mem hx
    obtain ⟨c, hc, hxc⟩ := List.mem_flatten.mp hmem
    obtain ⟨g, hg, hperm⟩ := forall₂_mem hchosen hc
    have hlt := List.mem_range.mp (hperm.mem_iff.mp hxc)
    exact lt_of_lt_of_le hlt (hsmall g hg)
  have hnodup : ((slots (positions_per_group base.key_exprs) chosen).map Prod.fst).Nodup := by
    rw [slots_fst hlength]
    exact nodup_flatten_groups
  obtain ⟨m, hm, hmem, _⟩ := insert_all hnodup hless fun _ => none
  have hf : ∀ x ∈ slots (positions_per_group base.key_exprs) chosen,
      (m x.1).getD (0, 0) = canonical x.2 := fun x hx => by rw [hmem x hx, Option.getD_some]
  have hall : ∀ i < base.key_exprs.length, m (0 + i) = some ((m i).getD (0, 0)) := by
    intro i hi
    have hslot := mem_flatten_groups hi
    rw [← slots_fst hlength] at hslot
    obtain ⟨x, hx, rfl⟩ := List.mem_map.mp hslot
    rw [Nat.zero_add, hmem x hx, Option.getD_some]
  obtain ⟨t, ht, hkeys, hpop⟩ := writes base _ _ _ _ _ (write_renumber hall)
  have hpop := hpop []
  rw [List.append_nil, ← hkeys] at hpop
  refine ⟨t, fun i => (m i).getD (0, 0), ?_, hkeys, hpop, map_groups hlength hf⟩
  have hmapping : mapping (positions_per_group base.key_exprs) chosen = some m := hm
  rw [expand_derivation_orderings_rec, hmapping]
  simp only [Option.bind_eq_bind, Option.bind_some, ht]

theorem chosen_small {groups chosen : List (List ℕ)}
    (h : List.Forall₂ (fun c g => c.Perm (List.range g.length)) chosen groups)
    (hsmall : ∀ g ∈ groups, g.length ≤ 2 ^ 31) : ∀ c ∈ chosen, ∀ p ∈ c, p < 2 ^ 31 := by
  intro c hc p hp
  obtain ⟨g, hg, hperm⟩ := forall₂_mem h hc
  exact lt_of_lt_of_le (List.mem_range.mp (hperm.mem_iff.mp hp)) (hsmall g hg)

theorem chosen_inj {chosen chosen' : List (List ℕ)} (h : ∀ c ∈ chosen, ∀ p ∈ c, p < 2 ^ 31)
    (h' : ∀ c ∈ chosen', ∀ p ∈ c, p < 2 ^ 31)
    (heq : chosen.map (List.map canonical) = chosen'.map (List.map canonical)) :
    chosen = chosen' := by
  induction chosen generalizing chosen' with
  | nil => exact (List.map_eq_nil_iff.mp heq.symm).symm
  | cons c chosen ih =>
      obtain ⟨c', chosen', rfl⟩ : ∃ c' rest, chosen' = c' :: rest :=
        List.exists_cons_of_ne_nil fun hnil => (by rw [hnil] at heq; cases heq)
      obtain ⟨hc, h⟩ := List.forall_mem_cons.mp h
      obtain ⟨hc', h'⟩ := List.forall_mem_cons.mp h'
      rw [List.map_cons, List.map_cons, List.cons.injEq] at heq
      rw [map_canonical_inj hc hc' heq.1, ih h h' heq.2]

theorem numbered_congr {f f' : ℕ → U32 × U32} (h : numbered f kps = numbered f' kps) {i : ℕ}
    (hi : i < kps.length) : f i = f' i := by
  have hget : (numbered f kps)[i]? = some { kps[i] with num1 := (f i).1, num2 := (f i).2 } := by
    rw [numbered, List.getElem?_mapIdx, List.getElem?_eq_getElem hi]
    rfl
  have hget' := hget
  rw [h] at hget'
  exact (numbered_get hget).symm.trans (numbered_get hget')

theorem lt_of_mem_group {g : List ℕ} (hg : g ∈ positions_per_group kps) {i : ℕ} (hi : i ∈ g) :
    i < kps.length := by
  rw [positions_per_group_eq] at hg
  obtain ⟨key, _, rfl⟩ := List.mem_map.mp hg
  exact List.mem_range.mp (List.mem_of_mem_filter hi)

/-- Groups are made of positions, … -/
theorem groups_congr {α : Type} {f f' : ℕ → α} (h : ∀ i < kps.length, f i = f' i) :
    (positions_per_group kps).map (List.map f) = (positions_per_group kps).map (List.map f') :=
  List.map_congr_left fun _ hg => List.map_congr_left fun i hi => h i (lt_of_mem_group hg hi)

/-- … and each position is in one of them. -/
theorem groups_agree {α : Type} {f f' : ℕ → α}
    (h : (positions_per_group kps).map (List.map f) = (positions_per_group kps).map (List.map f'))
    {i : ℕ} (hi : i < kps.length) : f i = f' i := by
  obtain ⟨g, hg, hig⟩ := List.mem_flatten.mp (mem_flatten_groups hi)
  exact List.map_inj_left.mp (List.map_inj_left.mp h g hg) i hig

/-- A list in another order is the image of another order. -/
theorem exists_perm_map {α β : Type} {f : α → β} {l : List β} {l' : List α}
    (h : l.Perm (l'.map f)) : ∃ l'' : List α, l''.Perm l' ∧ l = l''.map f := by
  have hforall : List.Forall₂ (fun y x => y = f x) (l'.map f) l' := by
    rw [List.forall₂_map_left_iff]
    exact List.forall₂_same.mpr fun _ _ => rfl
  obtain ⟨l'', hl'', hperm⟩ := List.perm_comp_forall₂ h hforall
  refine ⟨l'', hperm, ?_⟩
  clear h hforall hperm
  induction hl'' with
  | nil => rfl
  | cons hxy _ ih => rw [hxy, ih, List.map_cons]

/-- What is chosen for the groups is an order of the pairs of each group. -/
theorem chosen_iff {f : ℕ → U32 × U32} {groups : List (List ℕ)} :
    (∃ chosen, List.Forall₂ (fun c g => c.Perm (List.range g.length)) chosen groups ∧
      groups.map (List.map f) = chosen.map (List.map canonical)) ↔
    ∀ g ∈ groups, (g.map f).Perm ((List.range g.length).map canonical) := by
  induction groups with
  | nil => exact ⟨fun _ g hg => (by cases hg), fun _ => ⟨[], .nil, rfl⟩⟩
  | cons g groups ih =>
      rw [List.forall_mem_cons, ← ih]
      refine ⟨fun ⟨chosen, hchosen, hmap⟩ => ?_, fun ⟨hg, chosen, hchosen, hmap⟩ => ?_⟩
      · cases hchosen with
        | @cons c _ chosen _ hperm hchosen =>
            rw [List.map_cons, List.map_cons, List.cons.injEq] at hmap
            rw [hmap.1]
            exact ⟨hperm.map canonical, chosen, hchosen, hmap.2⟩
      · obtain ⟨c, hperm, hc⟩ := exists_perm_map hg
        exact ⟨c :: chosen, .cons hperm hchosen, by rw [List.map_cons, List.map_cons, hc, hmap]⟩

/-- The condition on groups is one on key expressions. -/
theorem groups_perm_iff {f : ℕ → U32 × U32} {kps' : List KeyExpression}
    (htypes : kps'.map (·.key_type) = kps.map (·.key_type))
    (hf : ∀ i kp, kps'[i]? = some kp → f i = (kp.num1, kp.num2)) :
    (∀ g ∈ positions_per_group kps, (g.map f).Perm ((List.range g.length).map canonical)) ↔
    ∀ key, ((kps'.filter fun kp => kp.key_type = key).map fun kp => (kp.num1, kp.num2)).Perm
      ((List.range (kps.countP fun kp => kp.key_type = key)).map canonical) := by
  have hgroup : ∀ key,
      (kps'.filter fun kp => kp.key_type = key).map (fun kp => (kp.num1, kp.num2)) =
        (positions kps key).map f := fun key => by
    rw [← positions_congr htypes]
    exact (map_positions (fun kp => (kp.num1, kp.num2)) f hf).symm
  simp only [hgroup, ← length_positions]
  rw [positions_per_group_eq, List.forall_mem_map]
  refine ⟨fun h key => ?_, fun h key _ => h key⟩
  by_cases hkey : key ∈ group_keys kps
  · exact h key hkey
  · have hnil : positions kps key = [] := List.eq_nil_iff_forall_not_mem.mpr fun i hi => by
      obtain ⟨kp, hkp, htype⟩ := Option.map_eq_some_iff.mp (mem_positions.mp hi)
      exact hkey (mem_group_keys.mpr ⟨kp, List.mem_of_getElem? hkp, htype⟩)
    rw [hnil]
    exact .refl _

/-- Key expressions that differ in the derivations only. -/
theorem exists_numbered {kps' : List KeyExpression}
    (htypes : kps'.map (·.key_type) = kps.map (·.key_type)) : ∃ f, kps' = numbered f kps := by
  refine ⟨fun i => ((kps'[i]?).map fun kp => (kp.num1, kp.num2)).getD (0, 0), ?_⟩
  refine List.ext_getElem? fun i => ?_
  have htype : (kps'[i]?).map (·.key_type) = (kps[i]?).map (·.key_type) := by
    rw [← List.getElem?_map, ← List.getElem?_map, htypes]
  rw [numbered, List.getElem?_mapIdx]
  cases hkp' : kps'[i]? with
  | none =>
      rw [hkp', Option.map_none] at htype
      rw [Option.map_eq_none_iff.mp htype.symm, Option.map_none]
  | some kp' =>
      rw [hkp', Option.map_some] at htype
      obtain ⟨kp, hkp, hkey⟩ := Option.map_eq_some_iff.mp htype.symm
      rw [hkp, Option.map_some, hkey]
      rfl

/-- The templates that are listed are the assignments, each of them once. -/
theorem expand_derivation_orderings_exact (base : DescriptorTemplate)
    (hsmall : ∀ key, (base.key_exprs.countP fun kp => kp.key_type = key) ≤ 2 ^ 31) :
    ∃ l, expand_derivation_orderings base = some l ∧ l.Nodup ∧ (∀ t, t ∈ l ↔ Assigns base t) ∧
      l.length = ((base.key_exprs.map (·.key_type)).dedup.map fun key =>
        (base.key_exprs.countP fun kp => kp.key_type = key).factorial).prod := by
  have hgroups : ∀ g ∈ positions_per_group base.key_exprs, g.length ≤ 2 ^ 31 := by
    intro g hg
    rw [positions_per_group_eq] at hg
    obtain ⟨key, _, rfl⟩ := List.mem_map.mp hg
    rw [length_positions]
    exact hsmall key
  have hchoice : ∀ c ∈ Orders.choices ((positions_per_group base.key_exprs).map all_orders),
      List.Forall₂ (fun c g => c.Perm (List.range g.length)) c
        (positions_per_group base.key_exprs) := fun c hc => mem_all_choices.mp hc
  have : Nonempty DescriptorTemplate := ⟨base⟩
  choose! template f hleaf hkeys hpop hmap using fun c hc =>
    chosen_template (hchoice c hc) hgroups
  have hpos : ∀ g ∈ positions_per_group base.key_exprs, 0 < g.length := fun g hg => group_pos hg
  have hlist := @expand_rec_eq_some _ base template _ [] hpos fun c hc => by
    rw [List.nil_append]
    exact hleaf c hc
  simp only [List.nil_append] at hlist
  have hnumbered : ∀ c ∈ Orders.choices ((positions_per_group base.key_exprs).map all_orders),
      ∀ i kp, (template c).key_exprs[i]? = some kp → f c i = (kp.num1, kp.num2) := by
    intro c hc i kp hkp
    rw [hkeys c hc] at hkp
    exact (numbered_get hkp).symm
  refine ⟨_, hlist, ?_, fun t => ?_, ?_⟩
  · -- different choices give different templates
    refine List.Nodup.map_on (fun c hc c' hc' heq => ?_) (Orders.nodup_choices fun l hl => ?_)
    · have hsame := (hkeys c hc).symm.trans ((congrArg key_exprs heq).trans (hkeys c' hc'))
      have hgroups' := groups_congr fun i hi => numbered_congr hsame hi
      rw [hmap c hc, hmap c' hc'] at hgroups'
      exact chosen_inj (chosen_small (hchoice c hc) hgroups)
        (chosen_small (hchoice c' hc') hgroups) hgroups'
    · obtain ⟨g, _, rfl⟩ := List.mem_map.mp hl
      exact Orders.nodup_orders List.nodup_range
  · rw [List.mem_map]
    refine ⟨fun ⟨chosen, hc, ht⟩ => ?_, fun ht => ?_⟩
    · subst ht
      have htypes := numbered_key_types (f chosen) base.key_exprs
      rw [← hkeys chosen hc] at htypes
      exact ⟨hpop chosen hc, htypes, (groups_perm_iff htypes (hnumbered chosen hc)).mp
        (chosen_iff.mp ⟨chosen, hchoice chosen hc, hmap chosen hc⟩)⟩
    · obtain ⟨g, hg⟩ := exists_numbered ht.key_types
      have hpairs := (groups_perm_iff ht.key_types fun i kp hkp => by
        rw [hg] at hkp
        exact (numbered_get hkp).symm).mpr ht.pairs
      obtain ⟨c, hforall, hc⟩ := chosen_iff.mpr hpairs
      have hmem := mem_all_choices.mpr hforall
      refine ⟨c, hmem, ?_⟩
      have hagree : ∀ i < base.key_exprs.length, f c i = g i := fun i hi =>
        groups_agree ((hmap c hmem).trans hc.symm) hi
      have hsame : (template c).key_exprs = t.key_exprs := by
        rw [hkeys c hmem, hg]
        refine List.ext_getElem? fun i => ?_
        rw [numbered, numbered, List.getElem?_mapIdx, List.getElem?_mapIdx]
        cases hi : base.key_exprs[i]? with
        | none => rfl
        | some kp => rw [Option.map_some, Option.map_some,
            hagree i (List.getElem?_eq_some_iff.mp hi).1]
      have hboth := hpop c hmem
      rw [hsame, ht.shape] at hboth
      cases hboth
      rfl
  · have hlength : ∀ g : List ℕ, (all_orders g).length = g.length.factorial := fun g =>
      Orders.length_orders List.length_range
    rw [List.length_map, Orders.length_choices, List.map_map, positions_per_group_eq, List.map_map]
    simp only [Function.comp_def, hlength, length_positions]
    exact ((List.mergeSort_perm _ _).map _).prod_eq

/-- There are no pairs for so many places. -/
theorem expand_derivation_orderings_overflow {base : DescriptorTemplate} {key : KeyExpressionType}
    (h : 2 ^ 31 < base.key_exprs.countP fun kp => kp.key_type = key) :
    expand_derivation_orderings base = none := by
  have hkey : key ∈ group_keys base.key_exprs := by
    obtain ⟨kp, hkp, htype⟩ := List.countP_pos_iff.mp (lt_trans (by norm_num) h)
    exact mem_group_keys.mpr ⟨kp, hkp, of_decide_eq_true htype⟩
  have hgroup : positions base.key_exprs key ∈ positions_per_group base.key_exprs :=
    List.mem_map_of_mem hkey
  -- the first choice
  have hforall : ∀ groups : List (List ℕ), List.Forall₂ (fun c g => c.Perm (List.range g.length))
      (groups.map fun g => List.range g.length) groups := fun groups => by
    rw [List.forall₂_map_left_iff]
    exact List.forall₂_same.mpr fun _ _ => .refl _
  refine @expand_rec_eq_none _ base _ [] _ (fun g hg => group_pos hg)
    (mem_all_choices.mpr (hforall _)) ?_
  have hmem : 2 ^ 31 ∈
      ((positions_per_group base.key_exprs).map fun g => List.range g.length).flatten :=
    List.mem_flatten.mpr ⟨_, List.mem_map_of_mem hgroup, List.mem_range.mpr (by
      rwa [length_positions])⟩
  rw [← slots_snd ((hforall _).imp fun c g hperm => by
    rw [hperm.length_eq, List.length_range])] at hmem
  obtain ⟨x, hx, hx'⟩ := List.mem_map.mp hmem
  have hnone : mapping (positions_per_group base.key_exprs)
      ((positions_per_group base.key_exprs).map fun g => List.range g.length) = none :=
    insert_overflow hx (by rw [hx']; exact canonical_pair_overflow) fun _ => none
  rw [List.nil_append, expand_derivation_orderings_rec, hnone]
  rfl

end Cleartext

end Vanadium.Bip388
