import Vanadium.AppSdk.Slip21
import Vanadium.Proofs.GuestBuffers
import Vanadium.Vm.Slip21

/-!
# Labels on both sides

A list of labels is written as one buffer, each label behind a byte with its
length. The VM takes the buffer apart again. Every buffer that it does not refuse is
made of the labels it finds, and of nothing else, so that the buffer and the labels
determine each other.
-/

namespace Vanadium.Slip21

open Lib CommEcallHandler

/-- A label behind its length. -/
def encode_label (label : Bytes) : Bytes := BitVec.ofNat 8 label.length :: label

/-! ## Encoding -/

theorem length_encode_label (label : Bytes) : (encode_label label).length = label.length + 1 := rfl

theorem push_label_eq {encoded label encoded' : Bytes}
    (h : push_label encoded label = some encoded') :
    encoded' = encoded ++ encode_label label ∧ encoded'.length ≤ ISIZE_MAX := by
  unfold push_label at h
  simp only [List.append_assoc] at h
  split at h
  · cases h
  · next hmax =>
      cases h
      exact ⟨rfl, not_lt.mp hmax⟩

theorem loop_eq {labels : List Bytes} {encoded encoded' : Bytes}
    (h : encode_labels.loop labels encoded = some encoded') :
    encoded' = encoded ++ labels.flatMap encode_label ∧ (∀ label ∈ labels, label.length ≤ 252) ∧
      (encoded.length ≤ ISIZE_MAX → encoded'.length ≤ ISIZE_MAX) := by
  induction labels generalizing encoded with
  | nil =>
      cases h
      exact ⟨(List.append_nil _).symm, by simp, id⟩
  | cons label labels ih =>
      rw [encode_labels.loop] at h
      split at h
      · cases h
      · next hlen =>
          obtain ⟨encoded₁, hpush, hloop⟩ := Option.bind_eq_some_iff.mp h
          obtain ⟨rfl, hmax⟩ := push_label_eq hpush
          obtain ⟨rfl, hall, hend⟩ := ih hloop
          refine ⟨List.append_assoc _ _ _, ?_, fun _ => hend hmax⟩
          rw [List.forall_mem_cons]
          exact ⟨not_lt.mp hlen, hall⟩

/-- The sum of the lengths does not wrap, since the vector would not be that long. -/
theorem encode_labels_eq {labels : List Bytes} {buf : Bytes}
    (h : encode_labels labels = some buf) :
    buf = labels.flatMap encode_label ∧ buf.length ≤ 256 ∧ ∀ label ∈ labels, label.length ≤ 252 := by
  unfold encode_labels at h
  split at h
  · cases h
  · next hsum =>
      obtain ⟨rfl, hall, hmax⟩ := loop_eq h
      refine ⟨rfl, ?_, hall⟩
      have hlen : ([] ++ labels.flatMap encode_label).length =
          (labels.map fun label => label.length + 1).sum := by
        rw [List.nil_append, List.length_flatMap]
        rfl
      have hmax := hmax (Nat.zero_le _)
      rw [ISIZE_MAX] at hmax
      rw [encoded_length, ← hlen] at hsum
      omega

/-! ## Decoding -/

/-- The labels that are found are those that the rest is made of. -/
theorem parse_labels_append {fuel : ℕ} {labels : List Bytes} (slices : List Bytes)
    (hfuel : (labels.flatMap encode_label).length ≤ fuel)
    (hall : ∀ label ∈ labels, label.length ≤ 255) :
    parse_labels fuel (labels.flatMap encode_label) slices = some (slices ++ labels) := by
  induction labels generalizing fuel slices with
  | nil =>
      rw [List.append_nil]
      cases fuel <;> rfl
  | cons label labels ih =>
      rw [List.flatMap_cons, List.length_append, length_encode_label] at hfuel
      rw [List.forall_mem_cons] at hall
      obtain ⟨fuel, rfl⟩ : ∃ k, fuel = k + 1 := ⟨fuel - 1, by omega⟩
      have hlen : (BitVec.ofNat 8 label.length).toNat = label.length := by
        have := hall.1
        rw [BitVec.toNat_ofNat]
        omega
      rw [List.flatMap_cons, encode_label, List.cons_append, parse_labels, hlen,
        if_neg (by rw [List.length_append]; omega), List.drop_left, List.take_left,
        ih _ (by omega) hall.2, List.append_assoc, List.singleton_append]

theorem parse_labels_some {fuel : ℕ} {rest : Bytes} {slices labels : List Bytes}
    (hfuel : rest.length ≤ fuel) (h : parse_labels fuel rest slices = some labels) :
    ∃ found, labels = slices ++ found ∧ rest = found.flatMap encode_label ∧
      ∀ label ∈ found, label.length ≤ 255 := by
  induction fuel generalizing rest slices with
  | zero =>
      cases h
      exact ⟨[], (List.append_nil _).symm, by simpa using hfuel, by simp⟩
  | succ fuel ih =>
      cases rest with
      | nil =>
          cases h
          exact ⟨[], (List.append_nil _).symm, rfl, by simp⟩
      | cons label_len rest =>
          rw [parse_labels] at h
          split at h
          · cases h
          · next hfit =>
              have hlt := label_len.isLt
              rw [List.length_cons] at hfuel
              obtain ⟨found, rfl, hrest, hall⟩ := ih (by rw [List.length_drop]; omega) h
              have hlen : (rest.take label_len.toNat).length = label_len.toNat := by
                rw [List.length_take]
                omega
              refine ⟨rest.take label_len.toNat :: found, ?_, ?_, ?_⟩
              · rw [List.append_assoc, List.singleton_append]
              · rw [List.flatMap_cons, encode_label, hlen, BitVec.ofNat_toNat,
                  BitVec.setWidth_eq, List.cons_append, ← hrest, List.take_append_drop]
              · rw [List.forall_mem_cons, hlen]
                exact ⟨by omega, hall⟩

/-! ## The array -/

/-- The local array, with what was read at its beginning. -/
def labels_array (buf : Bytes) : Vector U8 256 :=
  array (buf ++ List.replicate (256 - buf.length) 0) 0 256

theorem labels_array_toList {buf : Bytes} (h : buf.length ≤ 256) :
    (labels_array buf).toList = buf ++ List.replicate (256 - buf.length) 0 := by
  refine array_toList_of_length ?_
  rw [List.length_append, List.length_replicate]
  omega

theorem slice_ok {σ : Type} {bytes : Bytes} {first n : ℕ} (h : first + n ≤ bytes.length) :
    slice bytes first (first + n) = (pure ((bytes.drop first).take n) : Exec CommEcallError σ _) := by
  rw [slice, if_pos ⟨Nat.le_add_right _ _, h⟩, Nat.add_sub_cancel_left]
  rfl

/-- No index is out of range, and the loop finds what the list consists of. -/
theorem label_slices_loop {σ : Type} {buf : Bytes} (hlen : buf.length ≤ 256) :
    ∀ {fuel fuel' offset : ℕ} {slices : List Bytes}, offset ≤ buf.length →
      buf.length - offset < fuel → buf.length - offset ≤ fuel' →
      label_slices.loop (labels_array buf) buf.length fuel offset slices =
        (Exec.orElse (parse_labels fuel' (buf.drop offset) slices)
          (.invalidParameters "Invalid labels format") : Exec CommEcallError σ (List Bytes)) := by
  intro fuel
  induction fuel with
  | zero => intro fuel' offset slices _ hfuel; omega
  | succ fuel ih =>
      intro fuel' offset slices hoffset hfuel hfuel'
      rw [label_slices.loop]
      split
      · next hlt =>
          obtain ⟨fuel', rfl⟩ : ∃ k, fuel' = k + 1 := ⟨fuel' - 1, by omega⟩
          have hdrop := List.drop_eq_getElem_cons hlt
          have hindex : (labels_array buf).toList[offset]? = some buf[offset] := by
            rw [labels_array_toList hlen, List.getElem?_append_left hlt,
              List.getElem?_eq_getElem hlt]
          rw [hindex, hdrop, parse_labels, List.length_drop]
          show (Exec.reject _ _ >>= _) = _
          by_cases hfit : offset + 1 + buf[offset].toNat > buf.length
          · rw [if_pos (by omega)]
            funext s
            rw [Exec.reject_bind_pos hfit]
            rfl
          · rw [if_neg (by omega)]
            have hslice : (((labels_array buf).toList.drop (offset + 1)).take buf[offset].toNat) =
                (buf.drop (offset + 1)).take buf[offset].toNat := by
              rw [labels_array_toList hlen, List.drop_append_of_le_length (by omega),
                List.take_append_of_le_length (by rw [List.length_drop]; omega)]
            rw [slice_ok (by rw [labels_array_toList hlen, List.length_append]; omega), hslice,
              List.drop_drop]
            funext s
            rw [Exec.reject_bind_neg hfit]
            exact congrFun (ih (by omega) (by omega) (by omega)) s
      · next hge =>
          rw [List.drop_eq_nil_of_le (not_lt.mp hge)]
          cases fuel' <;> rfl

theorem label_slices_eq {σ : Type} {buf : Bytes} (hlen : buf.length ≤ 256) :
    label_slices (labels_array buf) buf.length =
      (Exec.orElse (parse_labels buf.length buf [])
        (.invalidParameters "Invalid labels format") : Exec CommEcallError σ (List Bytes)) :=
  label_slices_loop hlen (Nat.zero_le _) (by omega) (by omega)

/-! ## The handler -/

section
variable {M : Type} [PagedMemory M]

theorem read_buffer_loop_length : ∀ (fuel : ℕ) {cur : U32} {remaining : ℕ} {buffer bytes : Bytes}
    {seg seg' : MemorySegment M}, remaining ≤ fuel →
    MemorySegment.read_buffer.loop fuel cur remaining buffer seg = .ok bytes seg' →
      bytes.length = buffer.length + remaining := by
  intro fuel
  induction fuel with
  | zero =>
      intro cur remaining buffer bytes seg seg' hfuel h
      cases h
      omega
  | succ fuel ih =>
      intro cur remaining buffer bytes seg seg' hfuel h
      rw [MemorySegment.read_buffer.loop] at h
      split at h
      · next hzero =>
          cases h
          omega
      · next hpos =>
          rw [Exec.get_bind] at h
          obtain ⟨page, seg₁, hget, h⟩ := Exec.bind_ok.mp h
          obtain ⟨chunk, seg₂, hread, h⟩ := Exec.bind_ok.mp h
          have hoff : seg.offset cur < PAGE_SIZE := MemorySegment.offset_lt seg cur
          obtain ⟨hfit, -, rfl⟩ := MemorySegment.read_page_inv hread
          rw [ih (by omega) h, List.length_append, List.length_take, List.length_drop,
            Vector.length_toList]
          omega

theorem read_guest_length {ptr : GuestPointer} {len : ℕ} {buf : Bytes}
    {s s' : CommEcallHandler × Cpu M} (h : read_guest ptr len s = .ok buf s') :
    buf.length = len := by
  obtain ⟨seg, s₁, -, h⟩ := Exec.bind_ok.mp h
  obtain ⟨m', h, -⟩ := Exec.zoom_ok.mp h
  obtain ⟨_, seg₁, -, hloop⟩ := Exec.bind_ok.mp h
  have := read_buffer_loop_length _ (Nat.le_refl _) hloop
  rwa [List.length_nil, Nat.zero_add] at this

/-- The end of the handler: the node under these labels. -/
def write_node (sdk : Sdk) (out : GuestPointer) (labels : List Bytes) : Ecall M U32 := do
  unwrap_ok (write_guest out (get_custom_slip21_node sdk labels).toList)
  pure 1

/-- The buffer is made of these labels, each behind its length, and of nothing else. -/
def Partition (buf : Bytes) (labels : List Bytes) : Prop :=
  buf = labels.flatMap encode_label ∧ ∀ label ∈ labels, label.length ≤ 255

theorem parse_labels_eq_some {buf : Bytes} {labels : List Bytes} :
    parse_labels buf.length buf [] = some labels ↔ Partition buf labels := by
  constructor
  · intro h
    obtain ⟨found, rfl, hbuf, hall⟩ := parse_labels_some (Nat.le_refl _) h
    exact ⟨hbuf, hall⟩
  · intro ⟨hbuf, hall⟩
    subst hbuf
    exact parse_labels_append [] (Nat.le_refl _) hall

theorem handle_derive_slip21_node_eq (sdk : Sdk) {ptr out : GuestPointer} {buf : Bytes}
    {s s₁ : CommEcallHandler × Cpu M} (hlen : buf.length ≤ 256)
    (hread : read_guest ptr buf.length s = .ok buf s₁) :
    handle_derive_slip21_node sdk ptr buf.length out s =
      (label_slices (labels_array buf) buf.length >>= write_node sdk out : Ecall M U32) s₁ := by
  rw [handle_derive_slip21_node, Exec.reject_bind_neg (not_lt.mpr hlen),
    Exec.bind_apply_ok hread, label_slices_eq hlen]
  rfl

/-- The VM finds the labels that the V-App wrote. Of any other buffer it finds the labels that it
consists of, or refuses it. The array is never left. -/
theorem slip21_labels_exact (sdk : Sdk) (ptr out : GuestPointer) :
    (∀ labels buf, encode_labels labels = some buf → buf.length ≤ 256 ∧
      ∀ s s₁ : CommEcallHandler × Cpu M, read_guest ptr buf.length s = .ok buf s₁ →
        handle_derive_slip21_node sdk ptr buf.length out s = write_node sdk out labels s₁) ∧
    (∀ (len : ℕ) (s : CommEcallHandler × Cpu M), 256 < len →
      handle_derive_slip21_node sdk ptr len out s =
        .err (.invalidParameters "labels_len is too large") s) ∧
    (∀ (len : ℕ) (buf : Bytes) (s s₁ : CommEcallHandler × Cpu M), len ≤ 256 →
      read_guest ptr len s = .ok buf s₁ →
        handle_derive_slip21_node sdk ptr len out s =
          (label_slices (labels_array buf) len >>= write_node sdk out : Ecall M U32) s₁ ∧
        ((label_slices (labels_array buf) len s₁ =
            .err (.invalidParameters "Invalid labels format") s₁ ∧
          ¬ ∃ labels, Partition buf labels) ∨
        ∃ labels, label_slices (labels_array buf) len s₁ = .ok labels s₁ ∧
          Partition buf labels)) ∧
    (∀ buf labels labels', Partition buf labels → Partition buf labels' → labels = labels') ∧
    ∀ labels labels' buf, encode_labels labels = some buf → encode_labels labels' = some buf →
      labels = labels' := by
  have hpartition : ∀ labels buf, encode_labels labels = some buf → Partition buf labels := by
    intro labels buf h
    obtain ⟨hbuf, -, hall⟩ := encode_labels_eq h
    exact ⟨hbuf, fun label hlabel => (hall label hlabel).trans (by decide)⟩
  have hunique : ∀ buf labels labels', Partition buf labels → Partition buf labels' →
      labels = labels' := by
    intro buf labels labels' h h'
    exact Option.some.inj ((parse_labels_eq_some.mpr h).symm.trans (parse_labels_eq_some.mpr h'))
  refine ⟨?_, ?_, ?_, hunique, ?_⟩
  · intro labels buf h
    have hlen := (encode_labels_eq h).2.1
    refine ⟨hlen, fun s s₁ hread => ?_⟩
    rw [handle_derive_slip21_node_eq sdk hlen hread, label_slices_eq hlen,
      parse_labels_eq_some.mpr (hpartition _ _ h)]
    rfl
  · intro len s hlen
    rw [handle_derive_slip21_node, Exec.reject_bind_pos hlen]
  · intro len buf s s₁ hlen hread
    obtain rfl := read_guest_length hread
    refine ⟨handle_derive_slip21_node_eq sdk hlen hread, ?_⟩
    rw [label_slices_eq hlen]
    rcases hparse : parse_labels buf.length buf [] with _ | labels
    · refine .inl ⟨rfl, fun ⟨labels, h⟩ => ?_⟩
      cases hparse.symm.trans (parse_labels_eq_some.mpr h)
    · exact .inr ⟨labels, rfl, parse_labels_eq_some.mp hparse⟩
  · intro labels labels' buf h h'
    exact hunique buf _ _ (hpartition _ _ h) (hpartition _ _ h')

end

end Vanadium.Slip21
