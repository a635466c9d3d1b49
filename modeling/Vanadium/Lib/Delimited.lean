import Mathlib

/-!
# Encodings that end by themselves

An encoding of the values in a set is *delimited* when it can be split off the
front of a longer text in one way only: two texts that begin with the encoding
of a value each, and are equal, begin with the same value, and go on alike. It
is what makes a concatenation of fields readable. A field of fixed width is
delimited, and so is a list behind its own length.
-/

namespace Vanadium.Lib

variable {α β γ : Type*}

def Delimited (s : Set α) (enc : α → List β) : Prop :=
  ∀ ⦃a⦄, a ∈ s → ∀ ⦃b⦄, b ∈ s → ∀ ⦃t u⦄, enc a ++ t = enc b ++ u → a = b ∧ t = u

namespace Delimited

variable {s t : Set α} {enc : α → List β}

theorem injOn (h : Delimited s enc) : Set.InjOn enc s := by
  intro a ha b hb hab
  have hnil : enc a ++ [] = enc b ++ [] := by rw [hab]
  exact (h ha hb hnil).1

theorem mono (h : Delimited s enc) (hts : t ⊆ s) : Delimited t enc :=
  fun _ ha _ hb => h (hts ha) (hts hb)

/-- What a reader takes off the front of any text that begins with it. -/
theorem of_read {read : List β → Option (α × List β)}
    (h : ∀ a ∈ s, ∀ u, read (enc a ++ u) = some (a, u)) : Delimited s enc := by
  intro a ha b hb u v huv
  have hread := (h a ha u).symm.trans ((congrArg read huv).trans (h b hb v))
  cases hread
  exact ⟨rfl, rfl⟩

/-- Fields of one width. -/
theorem of_length {n : ℕ} (hlen : ∀ a ∈ s, (enc a).length = n) (hinj : Set.InjOn enc s) :
    Delimited s enc := by
  intro a ha b hb u v huv
  have hwidth : (enc a).length = (enc b).length := by rw [hlen a ha, hlen b hb]
  obtain ⟨henc, htail⟩ := List.append_inj huv hwidth
  exact ⟨hinj ha hb henc, htail⟩

/-- A list behind its own length. -/
theorem counted {count : ℕ → List β} {ns : Set ℕ} (h : Delimited ns count) :
    Delimited { l : List β | l.length ∈ ns } fun l => count l.length ++ l := by
  intro a ha b hb u v huv
  rw [List.append_assoc, List.append_assoc] at huv
  obtain ⟨hlen, hrest⟩ := h ha hb huv
  exact List.append_inj hrest hlen

/-- One field after the other. -/
theorem append {s : Set α} {t : Set γ} {f : α → List β} {g : γ → List β}
    (hf : Delimited s f) (hg : Delimited t g) :
    Delimited (s ×ˢ t) fun p => f p.1 ++ g p.2 := by
  rintro ⟨a, c⟩ ⟨ha, hc⟩ ⟨b, d⟩ ⟨hb, hd⟩ u v huv
  rw [List.append_assoc, List.append_assoc] at huv
  obtain ⟨rfl, hrest⟩ := hf ha hb huv
  obtain ⟨rfl, htail⟩ := hg hc hd hrest
  exact ⟨rfl, htail⟩

/-- The items of a list of known length, one after the other. -/
theorem items (h : Delimited s enc) : ∀ {l m : List α} {u v : List β}, (∀ a ∈ l, a ∈ s) →
    (∀ a ∈ m, a ∈ s) → l.length = m.length → l.flatMap enc ++ u = m.flatMap enc ++ v →
    l = m ∧ u = v
  | [], [], u, v, _, _, _, huv => ⟨rfl, huv⟩
  | a :: l, b :: m, u, v, hl, hm, hlen, huv => by
      rw [List.flatMap_cons, List.flatMap_cons, List.append_assoc, List.append_assoc] at huv
      obtain ⟨rfl, hrest⟩ := h (hl a List.mem_cons_self) (hm b List.mem_cons_self) huv
      obtain ⟨rfl, htail⟩ := h.items (fun c hc => hl c (List.mem_cons_of_mem a hc))
        (fun c hc => hm c (List.mem_cons_of_mem a hc)) (Nat.succ_injective hlen) hrest
      exact ⟨rfl, htail⟩

/-- A list of delimited items behind the number of them. -/
theorem counted_items {count : ℕ → List β} {ns : Set ℕ} (hcount : Delimited ns count)
    (h : Delimited s enc) :
    Delimited { l : List α | l.length ∈ ns ∧ ∀ a ∈ l, a ∈ s }
      fun l => count l.length ++ l.flatMap enc := by
  rintro l ⟨hl, hls⟩ m ⟨hm, hms⟩ u v huv
  rw [List.append_assoc, List.append_assoc] at huv
  obtain ⟨hlen, hrest⟩ := hcount hl hm huv
  exact h.items hls hms hlen hrest

end Delimited

end Vanadium.Lib
