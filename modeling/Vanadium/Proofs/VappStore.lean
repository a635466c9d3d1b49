import Vanadium.Lib.SlotTable
import Vanadium.Proofs.Manifest
import Vanadium.Proofs.WalletPolicy
import Vanadium.Vm.VappStore

/-!
# The V-App store is a map

A flag says whether there is an entry, and it is off while the entry is written. So what
can be seen of an entry is always whole: when the power is lost, there is the old one,
the new one, or none.

Entries have different names. To register a V-App replaces the entry of its name, and
takes a free place only if there is none; so the store is a map from names to entries.
An operation on the store is one on the map; cut off, it has not been made, or has been,
or the entry that it was to replace is gone.

The storage slots of an entry are zero when it is made, and later only the V-App with its
hash writes to them. So a V-App never sees what another one, or another version of it,
has stored.
-/

namespace Vanadium

open Lib PowerCut SlotTable

/-! ## One entry -/

namespace LazyStorage

variable {T : Type} {storage storage' : LazyStorage T} {value : T} {ws : List (Write T)}

/-- What is made by the writes to one entry. -/
abbrev Makes (ws : List (Write T)) (storage : LazyStorage T) : LazyStorage T :=
  perform (fun w s => s.write w) ws storage

/-- What they leave when they are cut off. -/
abbrev Cut (ws : List (Write T)) (storage storage' : LazyStorage T) : Prop :=
  Leaves (fun w s => s.write w) Torn ws storage storage'

theorem get_ref_valid (value : T) : get_ref ⟨STORAGE_VALID, value⟩ = some value := rfl

theorem get_ref_zero (value : T) : get_ref ⟨0, value⟩ = none := rfl

theorem get_ref_none (h : storage.is_initialized = false) : storage.get_ref = none := by
  rw [get_ref, h]
  rfl

/-- A value is written while there is none. -/
theorem get_ref_write_value (h : storage.is_initialized = false) (value : T) :
    (storage.write (.value value)).get_ref = none := get_ref_none h

theorem cut_value_flag (h : storage.is_initialized = false)
    (hcut : Cut [.value value, .flag STORAGE_VALID] storage storage') :
    storage'.get_ref = none ∨ storage'.get_ref = some value := by
  rcases leaves_cons hcut with rfl | ⟨_, htorn, rfl⟩ | hcut
  · exact .inl (get_ref_none h)
  · cases htorn
    exact .inl (get_ref_write_value h _)
  · rcases leaves_cons hcut with rfl | ⟨_, htorn, rfl⟩ | hcut
    · exact .inl (get_ref_write_value h _)
    · cases htorn
    · rw [leaves_nil hcut]
      exact .inr rfl

theorem initialize_cut (h : storage.initialize_with value = some ws)
    (hcut : Cut ws storage storage') :
    storage'.get_ref = none ∨ storage'.get_ref = some value := by
  unfold initialize_with at h
  split at h
  · cases h
  · next hflag =>
      cases h
      exact cut_value_flag (by simpa using hflag) hcut

theorem update_cut (h : storage.update value = some ws) (hcut : Cut ws storage storage') :
    storage'.get_ref = storage.get_ref ∨ storage'.get_ref = none ∨
      storage'.get_ref = some value := by
  unfold update at h
  split at h
  · cases h
    rcases leaves_cons hcut with rfl | ⟨_, htorn, rfl⟩ | hcut
    · exact .inl rfl
    · cases htorn
    · exact .inr (cut_value_flag rfl hcut)
  · cases h

theorem clear_cut (hcut : Cut (clear value) storage storage') :
    storage'.get_ref = storage.get_ref ∨ storage'.get_ref = none := by
  rcases leaves_cons hcut with rfl | ⟨_, htorn, rfl⟩ | hcut
  · exact .inl rfl
  · cases htorn
  · rcases leaves_cons hcut with rfl | ⟨_, htorn, rfl⟩ | hcut
    · exact .inr rfl
    · cases htorn
      exact .inr rfl
    · rw [leaves_nil hcut]
      exact .inr rfl

theorem initialize_makes (h : storage.initialize_with value = some ws) :
    (Makes ws storage).get_ref = some value := by
  unfold initialize_with at h
  split at h
  · cases h
  · cases h
    rfl

theorem update_makes (h : storage.update value = some ws) :
    (Makes ws storage).get_ref = some value := by
  unfold update at h
  split at h
  · cases h
    rfl
  · cases h

theorem clear_makes : (Makes (clear value) storage).get_ref = none := rfl

end LazyStorage

/-! ## The entries that can be seen -/

namespace VAppStore

variable {storage storage' : VAppStore} {ws : List Write} {i : Fin MAX_REGISTERED_VAPPS}
  {entry : RegisteredVApp}

def visible (storage : VAppStore) (i : Fin MAX_REGISTERED_VAPPS) : Option RegisteredVApp :=
  (storage i).get_ref

/-- Writes to one entry leave the others as they are. -/
theorem perform_at (ws : List (LazyStorage.Write RegisteredVApp)) (storage : VAppStore) :
    perform write (ws.map (i, ·)) storage =
      Function.update storage i (LazyStorage.Makes ws (storage i)) := by
  induction ws generalizing storage with
  | nil => exact (Function.update_eq_self i storage).symm
  | cons w ws ih =>
      have hself : write (i, w) storage i = (storage i).write w := Function.update_self _ _ _
      rw [List.map_cons, perform, ih, hself, write, Function.update_idem]
      rfl

theorem leaves_at {ws : List (LazyStorage.Write RegisteredVApp)}
    (h : Leaves write Torn (ws.map (i, ·)) storage storage') :
    ∃ c, LazyStorage.Cut ws (storage i) c ∧ storage' = Function.update storage i c := by
  induction ws generalizing storage with
  | nil => exact ⟨_, .stop _ _, by rw [leaves_nil h, Function.update_eq_self]⟩
  | cons w ws ih =>
      have hself : write (i, w) storage i = (storage i).write w := Function.update_self _ _ _
      rcases leaves_cons h with rfl | ⟨w', ⟨hi, htorn⟩, rfl⟩ | h
      · exact ⟨_, .stop _ _, (Function.update_eq_self i storage').symm⟩
      · obtain ⟨j, w'⟩ := w'
        cases hi
        exact ⟨_, .torn _ _ htorn, rfl⟩
      · obtain ⟨c, hc, rfl⟩ := ih h
        rw [hself] at hc
        exact ⟨c, .step hc, by rw [write, Function.update_idem]⟩

theorem visible_update (c : LazyStorage RegisteredVApp) :
    visible (Function.update storage i c) = Function.update (visible storage) i c.get_ref := by
  funext j
  by_cases hj : j = i
  · rw [hj, visible, Function.update_self, Function.update_self]
  · rw [visible, Function.update_of_ne hj, Function.update_of_ne hj, visible]

/-- An entry is written to a place. -/
structure Puts (storage : VAppStore) (i : Fin MAX_REGISTERED_VAPPS) (entry : RegisteredVApp)
    (ws : List Write) : Prop where
  done : visible (perform write ws storage) =
    Function.update (visible storage) i (some entry)
  cut : ∀ storage', Leaves write Torn ws storage storage' →
    visible storage' = visible storage ∨
      visible storage' = Function.update (visible storage) i none ∨
      visible storage' = Function.update (visible storage) i (some entry)

/-- Places are cleared. -/
structure Clears (storage : VAppStore) (P : Fin MAX_REGISTERED_VAPPS → Prop)
    (ws : List Write) : Prop where
  done : ∀ i, (P i → visible (perform write ws storage) i = none) ∧
    (¬ P i → visible (perform write ws storage) i = visible storage i)
  cut : ∀ storage', Leaves write Torn ws storage storage' →
    ∀ i, visible storage' i = visible storage i ∨ (P i ∧ visible storage' i = none)

theorem puts_initialize {ws : List (LazyStorage.Write RegisteredVApp)}
    (h : (storage i).initialize_with entry = some ws) : Puts storage i entry (ws.map (i, ·)) where
  done := by rw [perform_at, visible_update, LazyStorage.initialize_makes h]
  cut storage' hleaves := by
    obtain ⟨c, hc, rfl⟩ := leaves_at hleaves
    rw [visible_update]
    rcases LazyStorage.initialize_cut h hc with hnone | hsome
    · rw [hnone]
      exact .inr (.inl rfl)
    · rw [hsome]
      exact .inr (.inr rfl)

theorem puts_update {ws : List (LazyStorage.Write RegisteredVApp)}
    (h : (storage i).update entry = some ws) : Puts storage i entry (ws.map (i, ·)) where
  done := by rw [perform_at, visible_update, LazyStorage.update_makes h]
  cut storage' hleaves := by
    obtain ⟨c, hc, rfl⟩ := leaves_at hleaves
    rw [visible_update]
    rcases LazyStorage.update_cut h hc with hold | hnone | hsome
    · rw [hold]
      exact .inl (Function.update_eq_self i (visible storage))
    · rw [hnone]
      exact .inr (.inl rfl)
    · rw [hsome]
      exact .inr (.inr rfl)

theorem clears_at (storage : VAppStore) (i : Fin MAX_REGISTERED_VAPPS) :
    Clears storage (· = i) ((LazyStorage.clear .empty).map (i, ·)) where
  done j := by
    rw [perform_at, visible_update, LazyStorage.clear_makes]
    refine ⟨fun hj => ?_, fun hj => Function.update_of_ne hj _ _⟩
    subst hj
    exact Function.update_self _ _ _
  cut storage' hleaves j := by
    obtain ⟨c, hc, rfl⟩ := leaves_at hleaves
    rw [visible_update]
    by_cases hj : j = i
    · subst hj
      rw [Function.update_self]
      exact (LazyStorage.clear_cut hc).imp_right fun h => ⟨rfl, h⟩
    · exact .inl (Function.update_of_ne hj _ _)

theorem Clears.none (storage : VAppStore) : Clears storage (fun _ => False) [] where
  done _ := ⟨fun h => h.elim, fun _ => rfl⟩
  cut storage' hleaves _ := by
    rw [leaves_nil hleaves]
    exact .inl rfl

theorem Clears.append {P Q : Fin MAX_REGISTERED_VAPPS → Prop} {ws' : List Write}
    (h : Clears storage P ws) (h' : Clears (perform write ws storage) Q ws') :
    Clears storage (fun i => P i ∨ Q i) (ws ++ ws') where
  done i := by
    rw [perform_append]
    obtain ⟨hin, hout⟩ := h.done i
    obtain ⟨hin', hout'⟩ := h'.done i
    refine ⟨fun hi => ?_, fun hi => ?_⟩
    · by_cases hQ : Q i
      · exact hin' hQ
      · rw [hout' hQ, hin (hi.resolve_right hQ)]
    · rw [not_or] at hi
      rw [hout' hi.2, hout hi.1]
  cut storage' hleaves i := by
    rcases leaves_append hleaves with hleaves | hleaves
    · exact (h.cut storage' hleaves i).imp_right fun hi => ⟨.inl hi.1, hi.2⟩
    · rcases h'.cut storage' hleaves i with heq | ⟨hQ, hnone⟩
      · rw [heq]
        by_cases hP : P i
        · exact .inr ⟨.inl hP, (h.done i).1 hP⟩
        · exact .inl ((h.done i).2 hP)
      · exact .inr ⟨.inr hQ, hnone⟩

/-! ## Names -/

/-- Printable texts have no zero byte. -/
theorem as_bytes_printable {s : String}
    (h : ∀ c ∈ s.toList, is_ascii_graphic c = true ∨ c = ' ') : ∀ x ∈ as_bytes s, x ≠ 0 := by
  intro x hx
  have hbytes : s.toUTF8 = s.toList.utf8Encode := String.utf8Encode_toList.symm
  rw [as_bytes, hbytes, List.utf8Encode] at hx
  obtain ⟨y, hy, rfl⟩ := List.mem_map.mp hx
  obtain ⟨c, hc, hy⟩ := List.mem_flatMap.mp (by simpa using hy)
  have hrange : 0x20 ≤ c.toNat ∧ c.toNat ≤ 0x7e := by
    rcases h c hc with hgraphic | rfl
    · simp only [is_ascii_graphic, Bool.and_eq_true, decide_eq_true_eq] at hgraphic
      omega
    · decide
  have hsize : c.utf8Size = 1 := Char.utf8Size_eq_one_iff.mpr (by
    rw [UInt32.le_iff_toNat_le]
    exact hrange.2.trans (by decide))
  rw [String.utf8EncodeChar_eq_singleton hsize, List.mem_singleton] at hy
  subst hy
  intro hzero
  have hnat : c.toNat % 256 = 0 := congrArg BitVec.toNat hzero
  omega

theorem takeD_eq_append {α : Type} {n : ℕ} {l : List α} (h : l.length ≤ n) (a : α) :
    l.takeD n a = l ++ List.replicate (n - l.length) a := by
  induction l generalizing n with
  | nil => exact List.takeD_nil n a
  | cons x l ih =>
      cases n with
      | zero => cases h
      | succ n =>
          rw [List.length_cons, Nat.add_sub_add_right]
          exact congrArg (x :: ·) (ih (Nat.le_of_succ_le_succ h))

theorem text_array {n : ℕ} {s : String} (hlength : (as_bytes s).length ≤ n)
    (h : ∀ x ∈ as_bytes s, x ≠ 0) : RegisteredVApp.text (array (as_bytes s) 0 n) = s := by
  have hlist : (array (as_bytes s) 0 n).toList =
      as_bytes s ++ List.replicate (n - (as_bytes s).length) 0 := by
    show ((as_bytes s).drop 0).takeD n 0 = _
    rw [List.drop_zero]
    exact takeD_eq_append hlength 0
  have htake : (array (as_bytes s) 0 n).toList.takeWhile (· ≠ 0) = as_bytes s := by
    rw [hlist, List.takeWhile_append_of_pos fun x hx => decide_eq_true (h x hx)]
    cases n - (as_bytes s).length with
    | zero => simp
    | succ k => simp [List.replicate_succ]
  rw [RegisteredVApp.text, htake, Bip388.from_utf8_as_bytes, Option.getD_some]

theorem new_entry_name (sha256 : Bytes → HashOutput 32) {manifest : Manifest}
    (h : manifest.validate = .ok ()) :
    (new_entry sha256 manifest).get_app_name = manifest.vapp_name := by
  have hvalid := Manifest.validate_iff.mp h
  refine text_array hvalid.name (as_bytes_printable fun c hc => ?_)
  have htext := hvalid.name_text
  unfold Manifest.validate_text at htext
  split at htext
  · cases htext
  · next hall =>
      rw [Bool.not_eq_true, Bool.not_eq_false', List.all_eq_true] at hall
      simpa using hall c hc

/-! ## Operations -/

theorem visible_any (storage : VAppStore) (p : RegisteredVApp → Bool)
    (i : Fin MAX_REGISTERED_VAPPS) :
    ((storage i).is_initialized && p (storage i).value) = (visible storage i).any p := by
  rw [visible, LazyStorage.get_ref]
  cases (storage i).is_initialized <;> rfl

theorem find_by_name_eq (storage : VAppStore) (vapp_name : String) :
    storage.find_by_name vapp_name =
      SlotTable.find RegisteredVApp.get_app_name (visible storage) vapp_name := by
  rw [find_by_name, SlotTable.find]
  refine congrArg (List.find? · _) (funext fun i => ?_)
  exact visible_any storage (fun e => e.get_app_name == vapp_name) i

theorem find_by_hash_some {vapp_hash : HashOutput 32} (h : storage.find_by_hash vapp_hash = some i) :
    ∃ entry, visible storage i = some entry ∧ entry.vapp_hash = vapp_hash := by
  have hfound := List.find?_some h
  rw [visible_any storage (fun e => e.vapp_hash == vapp_hash), Option.any_eq_true] at hfound
  obtain ⟨entry, hentry, hhash⟩ := hfound
  exact ⟨entry, hentry, eq_of_beq hhash⟩

theorem find_by_hash_none {vapp_hash : HashOutput 32} (h : storage.find_by_hash vapp_hash = none)
    (hentry : visible storage i = some entry) : entry.vapp_hash ≠ vapp_hash := by
  intro hhash
  have hnot := List.find?_eq_none.mp h i (List.mem_finRange i)
  rw [visible_any storage (fun e => e.vapp_hash == vapp_hash), hentry] at hnot
  exact hnot (beq_iff_eq.mpr hhash)

theorem is_initialized_iff : (storage i).is_initialized = true ↔ visible storage i ≠ none := by
  rw [visible, LazyStorage.get_ref]
  cases (storage i).is_initialized with
  | true => exact ⟨fun _ => Option.some_ne_none _, fun _ => rfl⟩
  | false => exact ⟨fun h => (by cases h), fun h => absurd rfl h⟩

theorem puts_of_some (hentry : visible storage i = some entry) (entry' : RegisteredVApp) :
    ∃ ws, (storage i).update entry' = some ws ∧ Puts storage i entry' (ws.map (i, ·)) := by
  have hinit : (storage i).is_initialized = true :=
    is_initialized_iff.mpr (by rw [hentry]; exact Option.some_ne_none _)
  exact ⟨_, if_pos hinit, puts_update (if_pos hinit)⟩

theorem puts_of_none (hentry : visible storage i = none) (entry' : RegisteredVApp) :
    ∃ ws, (storage i).initialize_with entry' = some ws ∧
      Puts storage i entry' (ws.map (i, ·)) := by
  have hinit : ¬ (storage i).is_initialized = true := fun h => is_initialized_iff.mp h hentry
  exact ⟨_, if_neg hinit, puts_initialize (if_neg hinit)⟩

variable {sha256 : Bytes → HashOutput 32} {manifest : Manifest}

/-- Where the entry of a valid manifest is put. -/
theorem register_valid (storage : VAppStore) (h : manifest.validate = .ok ()) :
    (storage.register sha256 manifest = some (.error .storeFull) ∧
      storage.find_by_name manifest.vapp_name = none ∧ ∀ i, visible storage i ≠ none) ∨
    ∃ i ws, storage.register sha256 manifest = some (.ok ws) ∧
      Puts storage i (new_entry sha256 manifest) ws ∧
      ((∃ entry, visible storage i = some entry ∧ entry.get_app_name = manifest.vapp_name) ∨
        (visible storage i = none ∧ storage.find_by_name manifest.vapp_name = none)) := by
  have hvalid := Manifest.validate_iff.mp h
  unfold register
  rw [if_neg (not_lt.mpr hvalid.name), if_neg (not_lt.mpr hvalid.version)]
  cases hname : storage.find_by_name manifest.vapp_name with
  | some i =>
      obtain ⟨entry, hentry, hkey⟩ := find_some ((find_by_name_eq _ _).symm.trans hname)
      obtain ⟨ws, hws, hputs⟩ := puts_of_some hentry (new_entry sha256 manifest)
      refine .inr ⟨i, _, ?_, hputs, .inl ⟨entry, hentry, hkey⟩⟩
      simp only [hws, Option.map_some]
  | none =>
      cases hfree : (List.finRange MAX_REGISTERED_VAPPS).find? fun i =>
        !(storage i).is_initialized with
      | some i =>
          have hnone : visible storage i = none := by
            have hinit := List.find?_some hfree
            by_contra hne
            rw [is_initialized_iff.mpr hne] at hinit
            cases hinit
          obtain ⟨ws, hws, hputs⟩ := puts_of_none hnone (new_entry sha256 manifest)
          refine .inr ⟨i, _, ?_, hputs, .inr ⟨hnone, rfl⟩⟩
          simp only [hws, Option.map_some]
      | none =>
          refine .inl ⟨rfl, rfl, fun i => is_initialized_iff.mp ?_⟩
          have hinit := List.find?_eq_none.mp hfree i (List.mem_finRange i)
          simpa using hinit

theorem handler_refuses (storage : VAppStore) {approved : Bool}
    (h : manifest.validate ≠ .ok () ∨ approved = false) :
    (Op.register manifest approved).writes sha256 storage = some [] := by
  simp only [Op.writes, handler_register_vapp]
  cases hvalid : manifest.validate with
  | error e => rfl
  | ok u =>
      rw [h.resolve_left (fun hne => hne hvalid)]
      rfl

theorem handler_registers (storage : VAppStore) (h : manifest.validate = .ok ()) :
    (Op.register manifest true).writes sha256 storage =
      (storage.register sha256 manifest).map fun result => result.toOption.getD [] := by
  simp only [Op.writes, handler_register_vapp, h]
  cases storage.register sha256 manifest with
  | none => rfl
  | some result => cases result <;> rfl

/-- The entry with the data in one of its slots. -/
def with_slot (entry : RegisteredVApp) (slot_index : U32) (slot_data : StorageSlot) :
    RegisteredVApp :=
  { entry with
    storage_slots := entry.storage_slots.setIfInBounds slot_index.toNat slot_data }

theorem storage_write_cases (storage : VAppStore) (vapp_hash : HashOutput 32)
    (n_storage_slots slot_index : U32) (slot_data : StorageSlot) :
    (storage.storage_write vapp_hash n_storage_slots slot_index slot_data = some [] ∧
      (slot_index ≥ n_storage_slots ∨ slot_index ≥ MAX_STORAGE_SLOTS ∨
        ∀ i entry, visible storage i = some entry → entry.vapp_hash ≠ vapp_hash)) ∨
    (slot_index < n_storage_slots ∧ slot_index < MAX_STORAGE_SLOTS ∧ ∃ i ws entry,
      storage.storage_write vapp_hash n_storage_slots slot_index slot_data = some ws ∧
      storage.find_by_hash vapp_hash = some i ∧ visible storage i = some entry ∧
      entry.vapp_hash = vapp_hash ∧ Puts storage i (with_slot entry slot_index slot_data) ws) := by
  unfold storage_write
  by_cases hslot : slot_index ≥ n_storage_slots ∨ slot_index ≥ MAX_STORAGE_SLOTS
  · rw [if_pos hslot]
    exact .inl ⟨rfl, hslot.imp_right .inl⟩
  · rw [if_neg hslot]
    rw [not_or] at hslot
    cases hfind : storage.find_by_hash vapp_hash with
    | none => exact .inl ⟨rfl, .inr (.inr fun i entry => find_by_hash_none hfind)⟩
    | some i =>
        obtain ⟨entry, hentry, hhash⟩ := find_by_hash_some hfind
        have hget : storage.get_entry i = some entry := by
          rw [get_entry, dif_pos i.isLt]
          exact hentry
        obtain ⟨ws, hws, hputs⟩ := puts_of_some hentry (with_slot entry slot_index slot_data)
        refine .inr ⟨BitVec.not_le.mp hslot.1, BitVec.not_le.mp hslot.2, i, _, entry, ?_, rfl,
          hentry, hhash, hputs⟩
        rw [with_slot] at hws
        simp only [hget, hws, Option.map_some]

theorem unregister_cases (storage : VAppStore) (index : ℕ) :
    ((storage.unregister index).2 = []) ∨
      ∃ i entry, visible storage i = some entry ∧
        Clears storage (· = i) (storage.unregister index).2 := by
  unfold unregister
  by_cases hindex : index < MAX_REGISTERED_VAPPS
  · rw [dif_pos hindex]
    by_cases hinit : (storage ⟨index, hindex⟩).is_initialized = true
    · rw [if_pos hinit]
      obtain ⟨entry, hentry⟩ := Option.ne_none_iff_exists'.mp (is_initialized_iff.mp hinit)
      exact .inr ⟨_, entry, hentry, clears_at storage _⟩
    · rw [if_neg hinit]
      exact .inl rfl
  · rw [dif_neg hindex]
    exact .inl rfl

theorem clears_all (storage : VAppStore) :
    Clears storage (fun i => visible storage i ≠ none) storage.uninstall_all := by
  have hlist : ∀ (l : List (Fin MAX_REGISTERED_VAPPS)), l.Nodup → ∀ storage' : VAppStore,
      (∀ i ∈ l, storage' i = storage i) →
      Clears storage' (fun i => i ∈ l ∧ visible storage i ≠ none) (l.flatMap fun i =>
        if (storage i).is_initialized then (LazyStorage.clear .empty).map (i, ·) else []) := by
    intro l
    induction l with
    | nil =>
        intro _ storage' _
        simpa using Clears.none storage'
    | cons i l ih =>
        intro hnodup storage' hsame
        obtain ⟨hi, hnodup⟩ := List.nodup_cons.mp hnodup
        have hfirst : Clears storage' (fun j => j = i ∧ visible storage i ≠ none)
            (if (storage i).is_initialized then (LazyStorage.clear .empty).map (i, ·) else []) := by
          by_cases hinit : (storage i).is_initialized = true
          · rw [if_pos hinit]
            simpa [is_initialized_iff.mp hinit] using clears_at storage' i
          · rw [if_neg hinit]
            have hnone : visible storage i = none := by
              by_contra hne
              exact hinit (is_initialized_iff.mpr hne)
            simpa [hnone] using Clears.none storage'
        have hrest := ih hnodup (perform write (if (storage i).is_initialized then
            (LazyStorage.clear .empty).map (i, ·) else []) storage') fun j hj => by
          have hne : j ≠ i := fun h => hi (h ▸ hj)
          split
          · rw [perform_at, Function.update_of_ne hne, hsame j (List.mem_cons_of_mem i hj)]
          · exact hsame j (List.mem_cons_of_mem i hj)
        have hmem : ∀ j, (j = i ∧ visible storage i ≠ none) ∨ (j ∈ l ∧ visible storage j ≠ none) ↔
            j ∈ i :: l ∧ visible storage j ≠ none := by
          intro j
          rw [List.mem_cons, or_and_right]
          refine or_congr_left (and_congr_right fun hj => ?_)
          rw [hj]
        simp only [← hmem, List.flatMap_cons]
        exact hfirst.append hrest
  have hclears := hlist _ (List.nodup_finRange _) storage fun _ _ => rfl
  rw [uninstall_all]
  simpa using hclears

/-! ## Runs on maps -/

/-- The store as a map from names. -/
def entries (storage : VAppStore) : String → Option RegisteredVApp :=
  lookup RegisteredVApp.get_app_name (visible storage)

def Unique (storage : VAppStore) : Prop :=
  Distinct RegisteredVApp.get_app_name (visible storage)

/-- An operation on a map with room for so many names. -/
inductive Done (sha256 : Bytes → HashOutput 32) :
    Op → (String → Option RegisteredVApp) → (String → Option RegisteredVApp) → Prop where
  | refused {m} {manifest : Manifest} {approved : Bool}
      (h : manifest.validate ≠ .ok () ∨ approved = false) :
      Done sha256 (.register manifest approved) m m
  | full {m} {manifest : Manifest} (hvalid : manifest.validate = .ok ())
      (hname : m manifest.vapp_name = none)
      (hfull : {name | m name ≠ none}.ncard = MAX_REGISTERED_VAPPS) :
      Done sha256 (.register manifest true) m m
  | registered {m} {manifest : Manifest} (hvalid : manifest.validate = .ok ())
      (hroom : m manifest.vapp_name = none →
        {name | m name ≠ none}.ncard < MAX_REGISTERED_VAPPS) :
      Done sha256 (.register manifest true) m
        (Function.update m manifest.vapp_name (some (new_entry sha256 manifest)))
  | unregistered {m} {index : ℕ} {name : String} (h : m name ≠ none) :
      Done sha256 (.unregister index) m (Function.update m name none)
  | not_there {m} {index : ℕ} : Done sha256 (.unregister index) m m
  | uninstalled {m} : Done sha256 .uninstall_all m fun _ => none
  | written {m} {vapp_hash : HashOutput 32} {n_storage_slots slot_index : U32}
      {slot_data : StorageSlot} {name : String} {entry : RegisteredVApp}
      (hslot : slot_index < n_storage_slots ∧ slot_index < MAX_STORAGE_SLOTS)
      (hentry : m name = some entry) (hhash : entry.vapp_hash = vapp_hash) :
      Done sha256 (.storage_write vapp_hash n_storage_slots slot_index slot_data) m
        (Function.update m name (some (with_slot entry slot_index slot_data)))
  | not_written {m} {vapp_hash : HashOutput 32} {n_storage_slots slot_index : U32}
      {slot_data : StorageSlot}
      (h : slot_index ≥ n_storage_slots ∨ slot_index ≥ MAX_STORAGE_SLOTS ∨
        ∀ name entry, m name = some entry → entry.vapp_hash ≠ vapp_hash) :
      Done sha256 (.storage_write vapp_hash n_storage_slots slot_index slot_data) m m

/-- An operation that may have been cut off. -/
inductive Cut (sha256 : Bytes → HashOutput 32) :
    Op → (String → Option RegisteredVApp) → (String → Option RegisteredVApp) → Prop where
  | nothing {op m} : Cut sha256 op m m
  | done {op m m'} (h : Done sha256 op m m') : Cut sha256 op m m'
  | replaced {m} {manifest : Manifest} (hvalid : manifest.validate = .ok ())
      (h : m manifest.vapp_name ≠ none) :
      Cut sha256 (.register manifest true) m (Function.update m manifest.vapp_name none)
  | rewritten {m} {vapp_hash : HashOutput 32} {n_storage_slots slot_index : U32}
      {slot_data : StorageSlot} {name : String} {entry : RegisteredVApp}
      (hentry : m name = some entry) (hhash : entry.vapp_hash = vapp_hash) :
      Cut sha256 (.storage_write vapp_hash n_storage_slots slot_index slot_data) m
        (Function.update m name none)
  | some_uninstalled {m m'} (h : ∀ name, m' name = m name ∨ m' name = none) :
      Cut sha256 .uninstall_all m m'

theorem entries_some (h : Unique storage) {name : String} :
    entries storage name = some entry ↔
      ∃ i, visible storage i = some entry ∧ entry.get_app_name = name :=
  h.lookup_eq_some

/-- The entry of a name is replaced, or a name that is not there gets one. -/
theorem puts_entries (h : Unique storage) (hputs : Puts storage i entry ws)
    (hslot : (∃ old, visible storage i = some old ∧ old.get_app_name = entry.get_app_name) ∨
      (visible storage i = none ∧ storage.find_by_name entry.get_app_name = none)) :
    (Unique (perform write ws storage) ∧ entries (perform write ws storage) =
      Function.update (entries storage) entry.get_app_name (some entry)) ∧
    ∀ storage', Leaves write Torn ws storage storage' → Unique storage' ∧
      (entries storage' = entries storage ∨
        (entries storage entry.get_app_name ≠ none ∧
          entries storage' = Function.update (entries storage) entry.get_app_name none) ∨
        entries storage' = Function.update (entries storage) entry.get_app_name (some entry)) := by
  have hput : Distinct RegisteredVApp.get_app_name
      (Function.update (visible storage) i (some entry)) ∧ lookup RegisteredVApp.get_app_name
      (Function.update (visible storage) i (some entry)) =
        Function.update (entries storage) entry.get_app_name (some entry) := by
    refine h.put (fun old hold => ?_) fun j old hold hname => ?_
    · rcases hslot with ⟨old', hold', hname⟩ | ⟨hnone, _⟩
      · rw [hold'] at hold
        cases hold
        exact hname
      · rw [hnone] at hold
        cases hold
    · rcases hslot with ⟨old', hold', hname'⟩ | ⟨_, hfind⟩
      · exact h j i old old' hold hold' (hname.trans hname'.symm)
      · rw [find_by_name_eq, SlotTable.find_none] at hfind
        exact absurd hname (hfind j old hold)
  have hsame : ∀ {storage' : VAppStore} {v : Fin MAX_REGISTERED_VAPPS → Option RegisteredVApp},
      visible storage' = v → Distinct RegisteredVApp.get_app_name v →
      Unique storage' ∧ entries storage' = lookup RegisteredVApp.get_app_name v := by
    intro storage' v hv hdistinct
    subst hv
    exact ⟨hdistinct, rfl⟩
  refine ⟨(hsame hputs.done hput.1).imp_right fun heq => heq.trans hput.2, ?_⟩
  intro storage' hleaves
  rcases hputs.cut storage' hleaves with hold | hnone | hnew
  · exact (hsame hold h).imp_right .inl
  · rcases hslot with ⟨old, hold, hname⟩ | ⟨hfree, _⟩
    · obtain ⟨hdistinct, hlookup⟩ := h.remove hold
      refine (hsame hnone hdistinct).imp_right fun heq => .inr (.inl ⟨?_, ?_⟩)
      · rw [(entries_some h).mpr ⟨i, hold, hname⟩]
        exact Option.some_ne_none old
      · rw [heq, hlookup, hname]
        rfl
    · rw [← hfree, Function.update_eq_self] at hnone
      exact (hsame hnone h).imp_right .inl
  · exact (hsame hnew hput.1).imp_right fun heq => .inr (.inr (heq.trans hput.2))

theorem clears_entries (h : Unique storage) {P : Fin MAX_REGISTERED_VAPPS → Prop}
    (hclears : Clears storage P ws) (hleaves : Leaves write Torn ws storage storage') :
    Unique storage' ∧ ∀ name, entries storage' name = entries storage name ∨
      entries storage' name = none :=
  h.shrink fun i => (hclears.cut storage' hleaves i).imp_right And.right

theorem ncard_full (h : Unique storage) (hfull : ∀ i, visible storage i ≠ none) :
    {name | entries storage name ≠ none}.ncard = MAX_REGISTERED_VAPPS := by
  have huniv : {i | visible storage i ≠ none} = Set.univ := Set.eq_univ_of_forall hfull
  rw [entries, h.ncard_keys, huniv, Set.ncard_univ, Nat.card_fin]

theorem ncard_room (h : Unique storage) (hfree : visible storage i = none) :
    {name | entries storage name ≠ none}.ncard < MAX_REGISTERED_VAPPS := by
  have hproper : {i | visible storage i ≠ none} ⊂ Set.univ :=
    Set.ssubset_univ_iff.mpr fun huniv =>
      (Set.eq_univ_iff_forall.mp huniv i : visible storage i ≠ none) hfree
  rw [entries, h.ncard_keys]
  calc _ < (Set.univ : Set (Fin MAX_REGISTERED_VAPPS)).ncard := Set.ncard_lt_ncard hproper
    _ = MAX_REGISTERED_VAPPS := by rw [Set.ncard_univ, Nat.card_fin]

/-- What an operation does to the map, and what it does when it is cut off. -/
structure Works (sha256 : Bytes → HashOutput 32) (op : Op) (storage : VAppStore)
    (ws : List Write) : Prop where
  writes : op.writes sha256 storage = some ws
  done : Done sha256 op (entries storage) (entries (perform write ws storage))
  cut : ∀ storage', Leaves write Torn ws storage storage' →
    Unique storage' ∧ Cut sha256 op (entries storage) (entries storage')

theorem Works.nothing {op : Op} (h : Unique storage) (hwrites : op.writes sha256 storage = some [])
    (hdone : Done sha256 op (entries storage) (entries storage)) :
    Works sha256 op storage [] where
  writes := hwrites
  done := hdone
  cut storage' hleaves := by
    rw [leaves_nil hleaves]
    exact ⟨h, .nothing⟩

theorem register_works (h : Unique storage) (manifest : Manifest) (approved : Bool) :
    ∃ ws, Works sha256 (.register manifest approved) storage ws := by
  by_cases href : manifest.validate ≠ .ok () ∨ approved = false
  · exact ⟨[], .nothing h (handler_refuses storage href) (.refused href)⟩
  · rw [not_or, not_not, Bool.not_eq_false] at href
    obtain ⟨hvalid, rfl⟩ := href
    have hname := new_entry_name sha256 hvalid
    rcases @register_valid sha256 _ storage hvalid with
      ⟨hregister, hfind, hfull⟩ | ⟨i, ws, hregister, hputs, hslot⟩
    · refine ⟨[], .nothing h (by rw [handler_registers storage hvalid, hregister]; rfl) ?_⟩
      refine .full hvalid (lookup_eq_none.mpr ?_) (ncard_full h hfull)
      exact SlotTable.find_none.mp ((find_by_name_eq _ _).symm.trans hfind)
    · rw [← hname] at hslot
      obtain ⟨hdone, hcut⟩ := puts_entries h hputs hslot
      have hregistered : Done sha256 (.register manifest true) (entries storage)
          (Function.update (entries storage) manifest.vapp_name
            (some (new_entry sha256 manifest))) := by
        refine .registered hvalid fun hnone => ?_
        rcases hslot with ⟨old, hold, holdname⟩ | ⟨hfree, _⟩
        · rw [(entries_some h).mpr ⟨i, hold, holdname.trans hname⟩] at hnone
          cases hnone
        · exact ncard_room h hfree
      refine ⟨ws, by rw [handler_registers storage hvalid, hregister]; rfl, ?_, ?_⟩
      · rw [hdone.2, hname]
        exact hregistered
      · intro storage' hleaves
        refine (hcut storage' hleaves).imp_right fun hcases => ?_
        rw [hname] at hcases
        rcases hcases with heq | ⟨hthere, heq⟩ | heq
        · rw [heq]
          exact .nothing
        · rw [heq]
          exact .replaced hvalid hthere
        · rw [heq]
          exact .done hregistered

theorem clears_one (hclears : Clears storage (· = i) ws) :
    visible (perform write ws storage) = Function.update (visible storage) i none ∧
    ∀ storage', Leaves write Torn ws storage storage' →
      visible storage' = visible storage ∨
        visible storage' = Function.update (visible storage) i none := by
  refine ⟨funext fun j => ?_, fun storage' hleaves => ?_⟩
  · obtain ⟨hin, hout⟩ := hclears.done j
    by_cases hj : j = i
    · rw [hin hj, hj, Function.update_self]
    · rw [hout hj, Function.update_of_ne hj]
  · have hothers : ∀ j, j ≠ i → visible storage' j = visible storage j := fun j hj =>
      (hclears.cut storage' hleaves j).resolve_right fun h => hj h.1
    rcases hclears.cut storage' hleaves i with heq | ⟨_, hnone⟩
    · refine .inl (funext fun j => ?_)
      by_cases hj : j = i
      · rw [hj, heq]
      · exact hothers j hj
    · refine .inr (funext fun j => ?_)
      by_cases hj : j = i
      · rw [hj, hnone, Function.update_self]
      · rw [hothers j hj, Function.update_of_ne hj]

theorem unregister_works (h : Unique storage) (index : ℕ) :
    ∃ ws, Works sha256 (.unregister index) storage ws := by
  rcases unregister_cases storage index with hnone | ⟨i, entry, hentry, hclears⟩
  · exact ⟨[], .nothing h (congrArg some hnone) .not_there⟩
  · obtain ⟨hdone, hcut⟩ := clears_one hclears
    obtain ⟨hdistinct, hlookup⟩ := h.remove hentry
    have hname : entries storage entry.get_app_name ≠ none := by
      rw [(entries_some h).mpr ⟨i, hentry, rfl⟩]
      exact Option.some_ne_none entry
    have hunregistered : ∀ {storage' : VAppStore},
        visible storage' = Function.update (visible storage) i none → Unique storage' ∧
          Done sha256 (.unregister index) (entries storage) (entries storage') := by
      intro storage' hvisible
      rw [Unique, entries, entries, hvisible, hlookup]
      exact ⟨hdistinct, .unregistered hname⟩
    refine ⟨_, rfl, (hunregistered hdone).2, fun storage' hleaves => ?_⟩
    rcases hcut storage' hleaves with heq | hvisible
    · rw [Unique, entries, entries, heq]
      exact ⟨h, .nothing⟩
    · exact (hunregistered hvisible).imp_right .done

theorem uninstall_all_works (h : Unique storage) :
    ∃ ws, Works sha256 .uninstall_all storage ws := by
  refine ⟨_, rfl, ?_, fun storage' hleaves => ?_⟩
  · have hnone : entries (perform write storage.uninstall_all storage) = fun _ => none := by
      funext name
      refine lookup_eq_none.mpr fun i entry hentry => ?_
      obtain ⟨hin, hout⟩ := (clears_all storage).done i
      by_cases hi : visible storage i = none
      · rw [hout (not_not.mpr hi), hi] at hentry
        cases hentry
      · rw [hin hi] at hentry
        cases hentry
    rw [hnone]
    exact .uninstalled
  · exact (clears_entries h (clears_all storage) hleaves).imp_right .some_uninstalled

theorem storage_write_works (h : Unique storage) (vapp_hash : HashOutput 32)
    (n_storage_slots slot_index : U32) (slot_data : StorageSlot) :
    ∃ ws, Works sha256 (.storage_write vapp_hash n_storage_slots slot_index slot_data)
      storage ws := by
  rcases storage_write_cases storage vapp_hash n_storage_slots slot_index slot_data with
    ⟨hwrites, hnot⟩ | ⟨hn, hmax, i, ws, entry, hwrites, _, hentry, hhash, hputs⟩
  · refine ⟨[], .nothing h hwrites (.not_written (hnot.imp_right (Or.imp_right ?_)))⟩
    intro hnone name entry hentry
    obtain ⟨i, hi, _⟩ := (entries_some h).mp hentry
    exact hnone i entry hi
  · obtain ⟨hdone, hcut⟩ := puts_entries h hputs (.inl ⟨entry, hentry, rfl⟩)
    have hmap := (entries_some h).mpr ⟨i, hentry, rfl⟩
    have hwritten : Done sha256 (.storage_write vapp_hash n_storage_slots slot_index slot_data)
        (entries storage) (Function.update (entries storage) entry.get_app_name
          (some (with_slot entry slot_index slot_data))) := .written ⟨hn, hmax⟩ hmap hhash
    refine ⟨ws, hwrites, ?_, fun storage' hleaves => ?_⟩
    · rw [hdone.2]
      exact hwritten
    · refine (hcut storage' hleaves).imp_right fun hcases => ?_
      rcases hcases with heq | ⟨_, heq⟩ | heq
      · rw [heq]
        exact .nothing
      · rw [heq]
        exact .rewritten hmap hhash
      · rw [heq]
        exact .done hwritten

theorem op_works (h : Unique storage) (op : Op) : ∃ ws, Works sha256 op storage ws := by
  cases op with
  | register manifest approved => exact register_works h manifest approved
  | unregister index => exact unregister_works h index
  | uninstall_all => exact uninstall_all_works h
  | storage_write vapp_hash n_storage_slots slot_index slot_data =>
      exact storage_write_works h vapp_hash n_storage_slots slot_index slot_data

theorem unique_new : Unique new := fun _ _ _ _ h => (by cases h)

theorem Run.unique {ops : List Op} (h : Run sha256 ops storage) : Unique storage := by
  induction h with
  | nil => exact unique_new
  | snoc run hwrites hleaves ih =>
      obtain ⟨ws, hworks⟩ := op_works ih _
      rw [hworks.writes] at hwrites
      cases hwrites
      exact (hworks.cut _ hleaves).1

/-- A history of a map. -/
inductive MapRun (sha256 : Bytes → HashOutput 32) :
    List Op → (String → Option RegisteredVApp) → Prop where
  | nil : MapRun sha256 [] fun _ => none
  | snoc {ops m m' op} (run : MapRun sha256 ops m) (hcut : Cut sha256 op m m') :
      MapRun sha256 (ops ++ [op]) m'

theorem entries_new : entries new = fun _ => none :=
  funext fun _ => lookup_eq_none.mpr fun _ _ h => (by cases h)

def zeros (_ : Bytes) : HashOutput 32 := Vector.replicate 32 0

def first : Fin MAX_REGISTERED_VAPPS := ⟨0, Nat.succ_pos 31⟩

def store_one : Op := .storage_write (Vector.replicate 32 0) 4 1 (Vector.replicate 32 7)

def registered_one : VAppStore :=
  perform write [(first, .value (new_entry zeros (.named "a"))), (first, .flag STORAGE_VALID)] new

theorem run_registered_one : Run zeros [.register (.named "a") true] registered_one := by
  have hwrites : (Op.register (.named "a") true).writes zeros new =
      some [(first, .value (new_entry zeros (.named "a"))), (first, .flag STORAGE_VALID)] := rfl
  exact .snoc .nil hwrites (leaves_perform _ _)

theorem writes_store_one : store_one.writes zeros registered_one =
    some [(first, .flag 0),
      (first, .value (with_slot (new_entry zeros (.named "a")) 1 (Vector.replicate 32 7))),
      (first, .flag STORAGE_VALID)] := rfl

/-- Where the entry of a name comes from: it was there, it was made, or a slot of it was
written. -/
inductive Origin (sha256 : Bytes → HashOutput 32) (m : String → Option RegisteredVApp)
    (name : String) : Op → RegisteredVApp → Prop where
  | kept {op} {entry : RegisteredVApp} (h : m name = some entry) : Origin sha256 m name op entry
  | made {manifest : Manifest} (h : manifest.validate = .ok ()) :
      Origin sha256 m name (.register manifest true) (new_entry sha256 manifest)
  | stored {old : RegisteredVApp} {n_storage_slots slot_index : U32} {slot_data : StorageSlot}
      (h : m name = some old) : Origin sha256 m name
        (.storage_write old.vapp_hash n_storage_slots slot_index slot_data)
        (with_slot old slot_index slot_data)

/-- The entry of a name in a map that was changed at another one. -/
theorem update_some {m : String → Option RegisteredVApp} {name name' : String}
    {new : Option RegisteredVApp} (h : Function.update m name' new name = some entry) :
    m name = some entry ∨ (name = name' ∧ new = some entry) := by
  by_cases hname : name = name'
  · rw [hname, Function.update_self] at h
    exact .inr ⟨hname, h⟩
  · rw [Function.update_of_ne hname] at h
    exact .inl h

theorem Done.origin {op : Op} {m m' : String → Option RegisteredVApp} {name : String}
    (h : Done sha256 op m m') (hentry : m' name = some entry) :
    Origin sha256 m name op entry := by
  cases h with
  | refused => exact .kept hentry
  | full => exact .kept hentry
  | registered hvalid =>
      rcases update_some hentry with hold | ⟨_, hnew⟩
      · exact .kept hold
      · cases hnew
        exact .made hvalid
  | unregistered =>
      rcases update_some hentry with hold | ⟨_, hnew⟩
      · exact .kept hold
      · cases hnew
  | not_there => exact .kept hentry
  | uninstalled => cases hentry
  | written _ hthere hhash =>
      rcases update_some hentry with hold | ⟨rfl, hnew⟩
      · exact .kept hold
      · cases hnew
        subst hhash
        exact .stored hthere
  | not_written => exact .kept hentry

theorem Cut.origin {op : Op} {m m' : String → Option RegisteredVApp} {name : String}
    (h : Cut sha256 op m m') (hentry : m' name = some entry) : Origin sha256 m name op entry := by
  cases h with
  | nothing => exact .kept hentry
  | done h => exact h.origin hentry
  | replaced =>
      rcases update_some hentry with hold | ⟨_, hnew⟩
      · exact .kept hold
      · cases hnew
  | rewritten =>
      rcases update_some hentry with hold | ⟨_, hnew⟩
      · exact .kept hold
      · cases hnew
  | some_uninstalled hsome =>
      rcases hsome name with heq | hnone
      · exact .kept (heq.symm.trans hentry)
      · rw [hentry] at hnone
        cases hnone

/-- What an entry has in its slots: zeros, or what the V-App stored there after it was
registered. -/
structure Own (sha256 : Bytes → HashOutput 32) (after : List Op) (manifest : Manifest)
    (entry : RegisteredVApp) : Prop where
  made : ∃ storage_slots,
    entry = { new_entry sha256 manifest with storage_slots := storage_slots }
  slots : ∀ j < MAX_STORAGE_SLOTS.toNat,
    entry.storage_slots[j]? = some (Vector.replicate _ 0) ∨
    ∃ n_storage_slots slot_index slot_data,
      .storage_write (manifest.get_vapp_hash sha256) n_storage_slots slot_index slot_data ∈ after ∧
      slot_index.toNat = j ∧ entry.storage_slots[j]? = some slot_data

theorem Own.new (sha256 : Bytes → HashOutput 32) (manifest : Manifest) :
    Own sha256 [] manifest (new_entry sha256 manifest) where
  made := ⟨_, rfl⟩
  slots _ hj := .inl (Vector.getElem?_replicate.trans (if_pos hj))

theorem Own.later {after : List Op} (h : Own sha256 after manifest entry) (op : Op) :
    Own sha256 (after ++ [op]) manifest entry where
  made := h.made
  slots j hj := by
    refine (h.slots j hj).imp_right ?_
    rintro ⟨n, i, data, hmem, hdata⟩
    exact ⟨n, i, data, List.mem_append_left _ hmem, hdata⟩

theorem Own.stored {after : List Op} (h : Own sha256 after manifest entry)
    (n_storage_slots slot_index : U32) (slot_data : StorageSlot) :
    Own sha256 (after ++ [.storage_write entry.vapp_hash n_storage_slots slot_index slot_data])
      manifest (with_slot entry slot_index slot_data) where
  made := by
    obtain ⟨storage_slots, rfl⟩ := h.made
    exact ⟨_, rfl⟩
  slots j hj := by
    have hhash : entry.vapp_hash = manifest.get_vapp_hash sha256 := by
      obtain ⟨storage_slots, rfl⟩ := h.made
      rfl
    have hslot : (with_slot entry slot_index slot_data).storage_slots[j]? =
        if slot_index.toNat = j then some slot_data else entry.storage_slots[j]? := by
      rw [with_slot, Vector.getElem?_setIfInBounds]
      split
      · next hindex => exact if_pos (hindex.trans_lt hj)
      · rfl
    rw [hslot, hhash]
    split
    · next hindex =>
        exact .inr ⟨n_storage_slots, slot_index, slot_data,
          List.mem_append_right _ List.mem_cons_self, hindex, rfl⟩
    · exact (h.later _).slots j hj

/-- Whatever is done, and wherever it is cut off, a V-App that is found was registered, and its
slots hold nothing but what it stored itself since. -/
theorem run_slots_own {ops : List Op} (h : Run sha256 ops storage) {name : String}
    (hentry : entries storage name = some entry) :
    ∃ before manifest after, ops = before ++ .register manifest true :: after ∧
      manifest.validate = .ok () ∧ Own sha256 after manifest entry := by
  induction h generalizing entry with
  | nil =>
      rw [entries_new] at hentry
      cases hentry
  | snoc run hwrites hleaves ih =>
      obtain ⟨ws, hworks⟩ := op_works run.unique _
      rw [hworks.writes] at hwrites
      cases hwrites
      cases (hworks.cut _ hleaves).2.origin hentry with
      | kept hold =>
          obtain ⟨before, manifest, after, rfl, hvalid, hown⟩ := ih hold
          exact ⟨before, manifest, _, List.append_assoc _ _ _, hvalid, hown.later _⟩
      | made hvalid => exact ⟨_, _, [], rfl, hvalid, Own.new sha256 _⟩
      | stored hold =>
          obtain ⟨before, manifest, after, rfl, hvalid, hown⟩ := ih hold
          exact ⟨before, manifest, _, List.append_assoc _ _ _, hvalid, hown.stored _ _ _⟩

theorem run_slots_own_one : ∃ before manifest after,
    [.register (.named "a") true, store_one] = before ++ .register manifest true :: after ∧
      manifest.validate = .ok () ∧ Own zeros after manifest
        (with_slot (new_entry zeros (.named "a")) 1 (Vector.replicate 32 7)) := by
  have hrun := Run.snoc run_registered_one writes_store_one (leaves_perform _ _)
  have hname : (new_entry zeros (.named "a")).get_app_name = "a" :=
    new_entry_name zeros (by decide +kernel)
  exact run_slots_own hrun ((entries_some hrun.unique).mpr ⟨first, rfl, hname⟩)

/-! ## The handler of the ECALLs

It sees the entries without their texts, in a list. -/

def view (storage : VAppStore) : List (Option VAppEntry) :=
  List.ofFn fun i => (visible storage i).map (·.toVAppEntry)

theorem view_length (storage : VAppStore) : storage.view.length = MAX_REGISTERED_VAPPS :=
  List.length_ofFn

theorem getElem?_view (storage : VAppStore) (i : Fin MAX_REGISTERED_VAPPS) :
    storage.view[i.val]? = some ((visible storage i).map (·.toVAppEntry)) := by
  rw [view, List.getElem?_ofFn, dif_pos i.isLt]

theorem findIdx?_finRange {n : ℕ} (p : Fin n → Bool) :
    (List.finRange n).findIdx? p = ((List.finRange n).find? p).map Fin.val := by
  cases hfind : (List.finRange n).find? p with
  | none =>
      refine List.findIdx?_eq_none_iff.mpr fun i hi => ?_
      exact (Bool.not_eq_true _).mp (List.find?_eq_none.mp hfind i hi)
  | some i =>
      obtain ⟨hp, k, hk, hi, hbefore⟩ := List.find?_eq_some_iff_getElem.mp hfind
      refine List.findIdx?_eq_some_iff_getElem.mpr ⟨by simp, ?_, fun j hj => ?_⟩
      · rwa [List.getElem_finRange]
      · have hik : k = i.val := by rw [← hi, List.getElem_finRange]; rfl
        simpa using hbefore j (hik ▸ hj)

theorem find_by_hash_view (storage : VAppStore) (vapp_hash : HashOutput 32) :
    CommEcallHandler.find_by_hash storage.view vapp_hash =
      (storage.find_by_hash vapp_hash).map Fin.val := by
  rw [CommEcallHandler.find_by_hash, find_by_hash, view, List.ofFn_eq_map, List.findIdx?_map,
    findIdx?_finRange]
  refine congrArg (fun p => (List.find? p _).map Fin.val) (funext fun i => ?_)
  rw [visible_any storage fun e => e.vapp_hash == vapp_hash, Function.comp, Option.any_map]

theorem get_entry_view (storage : VAppStore) (i : Fin MAX_REGISTERED_VAPPS) :
    CommEcallHandler.get_entry storage.view i = (visible storage i).map (·.toVAppEntry) := by
  rw [CommEcallHandler.get_entry, List.getD_eq_getElem?_getD, getElem?_view, Option.getD_some]

theorem view_puts (hputs : Puts storage i entry ws) :
    (perform write ws storage).view = storage.view.set i (some entry.toVAppEntry) := by
  refine List.ext_getElem? fun j => ?_
  by_cases hj : j < MAX_REGISTERED_VAPPS
  · rw [getElem?_view _ ⟨j, hj⟩, hputs.done, List.getElem?_set, getElem?_view _ ⟨j, hj⟩, view_length]
    by_cases hi : (⟨j, hj⟩ : Fin MAX_REGISTERED_VAPPS) = i
    · subst hi
      rw [Function.update_self, if_pos rfl, if_pos hj]
      rfl
    · rw [Function.update_of_ne hi, if_neg fun h => hi (Fin.ext h.symm)]
  · rw [List.getElem?_eq_none, List.getElem?_eq_none]
    · rw [List.length_set, view_length]
      exact not_lt.mp hj
    · rw [view_length]
      exact not_lt.mp hj

variable {M : Type} [PagedMemory M] {s s' : CommEcallHandler × Cpu M} {r : U32}
  {slot_index : U32} {buffer : GuestPointer} {buffer_size : ℕ}

theorem read_guest_handler {ptr : GuestPointer} {len : ℕ} {data : Bytes}
    (h : CommEcallHandler.read_guest ptr len s = .ok data s') : s'.1 = s.1 := by
  obtain ⟨seg, s₁, hseg, h⟩ := Exec.bind_ok.mp h
  obtain ⟨cpu, _, rfl⟩ := Exec.zoom_ok.mp hseg
  obtain ⟨m, _, rfl⟩ := Exec.zoom_ok.mp h
  rfl

/-- A V-App reads nothing, or the slot of the entry with its hash. -/
theorem storage_read_view (hview : s.1.storage = storage.view)
    (h : CommEcallHandler.handle_storage_read slot_index buffer buffer_size s = .ok r s') :
    (r = 0 ∧ s' = s) ∨ ∃ i entry slot_data, visible storage i = some entry ∧
      entry.vapp_hash = s.1.vapp_hash ∧
      entry.storage_slots[slot_index.toNat]? = some slot_data ∧ r = 1 ∧
      CommEcallHandler.write_guest buffer slot_data.toList s = .ok () s' := by
  obtain ⟨handler, cpu⟩ := s
  unfold CommEcallHandler.handle_storage_read at h
  rw [Exec.get_bind] at h
  dsimp only at h
  split at h
  · cases h
    exact .inl ⟨rfl, rfl⟩
  · split at h
    · cases h
      exact .inl ⟨rfl, rfl⟩
    · rw [show handler.storage = _ from hview, find_by_hash_view] at h
      cases hfind : storage.find_by_hash handler.vapp_hash with
      | none =>
          rw [hfind] at h
          cases h
          exact .inl ⟨rfl, rfl⟩
      | some i =>
          rw [hfind] at h
          obtain ⟨entry, hentry, hhash⟩ := find_by_hash_some hfind
          obtain ⟨entry', hget, h⟩ := Exec.orElse_bind_ok.mp h
          rw [get_entry_view, hentry] at hget
          cases hget
          obtain ⟨slot_data, hslot, h⟩ := Exec.unwrap_bind_ok.mp h
          obtain ⟨_, s₁, hwrite, h⟩ := Exec.bind_ok.mp h
          cases h
          exact .inr ⟨i, entry, slot_data, hentry, hhash, hslot, rfl, hwrite⟩

/-- What is written in flash is what the handler writes. -/
theorem storage_write_view (hview : s.1.storage = storage.view)
    (h : CommEcallHandler.handle_storage_write slot_index buffer buffer_size s = .ok r s') :
    (r = 0 ∧ s' = s) ∨ ∃ data ws,
      storage.storage_write s.1.vapp_hash s.1.n_storage_slots slot_index
        (array data 0 STORAGE_SLOT_SIZE) = some ws ∧ r = 1 ∧
      s'.1 = { s.1 with storage := (perform write ws storage).view } ∧
      CommEcallHandler.read_guest buffer STORAGE_SLOT_SIZE s = .ok data (s.1, s'.2) := by
  obtain ⟨handler, cpu⟩ := s
  unfold CommEcallHandler.handle_storage_write at h
  rw [Exec.get_bind] at h
  dsimp only at h
  split at h
  · cases h
    exact .inl ⟨rfl, rfl⟩
  · split at h
    · cases h
      exact .inl ⟨rfl, rfl⟩
    · next hslot =>
        rw [show handler.storage = _ from hview, find_by_hash_view] at h
        cases hfind : storage.find_by_hash handler.vapp_hash with
        | none =>
            rw [hfind] at h
            cases h
            exact .inl ⟨rfl, rfl⟩
        | some i =>
            rw [hfind] at h
            obtain ⟨entry, hentry, hhash⟩ := find_by_hash_some hfind
            obtain ⟨data, s₁, hread, hrest⟩ := Exec.bind_ok.mp h
            obtain ⟨entry', hget, hrest⟩ := Exec.orElse_bind_ok.mp hrest
            rw [get_entry_view, hentry] at hget
            cases hget
            obtain ⟨_, s₂, hset, hrest⟩ := Exec.bind_ok.mp hrest
            obtain ⟨_, hmodify, rfl⟩ := Exec.zoom_ok.mp hset
            cases hmodify
            cases hrest
            have hhandler := read_guest_handler hread
            rcases storage_write_cases storage handler.vapp_hash handler.n_storage_slots slot_index
                (array data 0 STORAGE_SLOT_SIZE) with
              ⟨_, hnot⟩ | ⟨_, _, j, ws, old, hwrites, hfound, hold, _, hputs⟩
            · rw [← or_assoc] at hnot
              exact absurd hhash (hnot.resolve_left hslot i entry hentry)
            · rw [hfind] at hfound
              cases hfound
              rw [hentry] at hold
              cases hold
              refine .inr ⟨data, ws, hwrites, rfl, ?_, ?_⟩
              · rw [view_puts hputs, ← show handler.storage = _ from hview]
                dsimp only
                rw [hhandler]
                rfl
              · rw [hread, ← hhandler]

theorem visible_entries (h : Unique storage) (hentry : visible storage i = some entry) :
    entries storage entry.get_app_name = some entry :=
  (entries_some h).mpr ⟨i, hentry, rfl⟩

/-- The V-App that was registered, with 256 bytes of memory in each segment. -/
def running_one : CommEcallHandler × Cpu VecMemory :=
  ({ comm := { replies := [] }
     ux_handler := UxHandler.new none
     vapp_hash := Vector.replicate 32 0
     n_storage_slots := 4
     storage := registered_one.view
     events := []
     n_random := 0 },
   Cpu.new 0 ⟨0x1000, 0x100, VecMemory.new 1⟩ ⟨0x2000, 0x100, VecMemory.new 1⟩
    ⟨0x3000, 0x100, VecMemory.new 1⟩)

end VAppStore

end Vanadium
