import Vanadium.Lib.Chunks
import Vanadium.Proofs.GuestBuffers

/-!
# Buffers to and from the host

What `handle_send_buffer` and `handle_xrecv` do to the line and to the guest's
memory. A buffer that was sent is in the messages, cut into chunks; a buffer
that was received is in the answers, and in the memory from the pointer on,
however the host cut it. Nothing else in the memory changes, also when the
transfer fails in the middle.
-/

namespace Vanadium

open Lib
open Lib.ByteMap (load store)

namespace Cpu

variable {M : Type}

@[simp] theorem segment_set_segment_self (cpu : Cpu M) (k : Segment) (seg : MemorySegment M) :
    (cpu.set_segment k seg).segment k = seg := by
  cases k <;> rfl

@[simp] theorem set_segment_set_segment (cpu : Cpu M) (k : Segment)
    (seg seg' : MemorySegment M) :
    (cpu.set_segment k seg).set_segment k seg' = cpu.set_segment k seg' := by
  cases k <;> rfl

@[simp] theorem set_segment_segment (cpu : Cpu M) (k : Segment) :
    cpu.set_segment k (cpu.segment k) = cpu := by
  cases k <;> rfl

end Cpu

namespace CommEcallHandler

/-! ## The line -/

/-- The handler said `messages`, heard `answers`, and did nothing else. -/
structure Exchanged (messages answers : List Bytes) (h h' : CommEcallHandler) : Prop where
  length : answers.length = messages.length
  replies : h.comm.replies = answers.map .ok ++ h'.comm.replies
  same : h' = { h with
    comm := { replies := h'.comm.replies, sent := messages.reverse ++ h.comm.sent } }

theorem Exchanged.nil (h : CommEcallHandler) : Exchanged [] [] h h := ⟨rfl, rfl, rfl⟩

theorem Exchanged.append {messages messages' answers answers' : List Bytes}
    {h h₁ h' : CommEcallHandler} (hx : Exchanged messages answers h h₁)
    (hx' : Exchanged messages' answers' h₁ h') :
    Exchanged (messages ++ messages') (answers ++ answers') h h' where
  length := by rw [List.length_append, List.length_append, hx.length, hx'.length]
  replies := by rw [hx.replies, hx'.replies, List.map_append, List.append_assoc]
  same := by
    rw [hx'.same, hx.same]
    simp only [List.reverse_append, List.append_assoc]

variable {M : Type} {s s' : CommEcallHandler × Cpu M}

theorem exchange_ok {message answer : Bytes}
    (h : (exchange message : Ecall M Bytes) s = .ok answer s') :
    s'.2 = s.2 ∧ Exchanged [message] [answer] s.1 s'.1 := by
  rw [exchange, on_handler] at h
  obtain ⟨h', hzoom, rfl⟩ := Exec.zoom_ok.mp h
  obtain ⟨c, hrun, rfl⟩ := Exec.zoom_ok.mp hzoom
  unfold interrupt at hrun
  split at hrun
  · cases hrun
  · next data replies hreplies =>
      cases hrun
      exact ⟨rfl, rfl, hreplies, rfl⟩
  · cases hrun

theorem exchange_fails {message : Bytes}
    (h : Exec.Fails (exchange message : Ecall M Bytes) s s') : s'.2 = s.2 := by
  rw [exchange, on_handler] at h
  obtain ⟨h', -, rfl⟩ := Exec.zoom_fails.mp h
  rfl

theorem get_segment_ok {ptr : GuestPointer} {k : Cpu.Segment}
    (h : (get_segment ptr : Ecall M Cpu.Segment) s = .ok k s') :
    s.2.owner ptr = some k ∧ s' = s := by
  obtain ⟨cpu, hrun, rfl⟩ := Exec.zoom_ok.mp h
  obtain ⟨howner, rfl⟩ := Cpu.get_segment_owner hrun
  exact ⟨howner, rfl⟩

theorem get_segment_fails {ptr : GuestPointer}
    (h : Exec.Fails (get_segment ptr : Ecall M Cpu.Segment) s s') : s' = s := by
  obtain ⟨cpu, hrun, rfl⟩ := Exec.zoom_fails.mp h
  obtain ⟨cpu₀, _, hget, hrun⟩ := (Exec.bind_fails.mp hrun).resolve_left (Exec.Infallible.get _ _)
  cases hget
  have hsame : cpu = s.2 := by
    split at hrun
    · exact absurd hrun (Exec.Infallible.pure _ _ _)
    · split at hrun
      · exact absurd hrun (Exec.Infallible.pure _ _ _)
      · split at hrun
        · exact absurd hrun (Exec.Infallible.pure _ _ _)
        · rcases hrun with ⟨e, hrun⟩ | hrun <;> cases hrun
          rfl
  rw [hsame]

/-! ## Sending -/

variable [PagedMemory M] [PageView M]

/-- What the device sends for a buffer: 249 bytes of it in the first message, and
254 in every other one. -/
def sendMessages (buffer_type : BufferType) (data : Bytes) : List Bytes :=
  SendBufferMessage.serialize
      { buffer_type, total_size := BitVec.ofNat 32 data.length, data := data.take 249 } ::
    (chunks 254 (data.drop 249)).map SendBufferContinuedMessage.serialize

/-- The bytes from `ptr` on, in the segment `k`, were read and sent as `messages`. -/
structure Sent (k : Cpu.Segment) (ptr : U32) (data : Bytes) (messages : List Bytes)
    (s s' : CommEcallHandler × Cpu M) : Prop where
  read : ∃ seg', MemorySegment.ReadFrom (s.2.segment k) ptr data.length data seg' ∧
    s'.2 = s.2.set_segment k seg'
  line : ∃ answers, Exchanged messages answers s.1 s'.1

variable {s₁ : CommEcallHandler × Cpu M} {k : Cpu.Segment} {ptr : U32}

theorem Sent.nil (s : CommEcallHandler × Cpu M) (k : Cpu.Segment) (ptr : U32) :
    Sent k ptr [] [] s s :=
  ⟨⟨_, .refl _ _, (Cpu.set_segment_segment _ _).symm⟩, [], .nil _⟩

theorem Sent.append {data data' : Bytes} {messages messages' : List Bytes}
    (h : Sent k ptr data messages s s₁)
    (h' : Sent k (ptr + BitVec.ofNat 32 data.length) data' messages' s₁ s') :
    Sent k ptr (data ++ data') (messages ++ messages') s s' := by
  obtain ⟨⟨seg₁, hread, hcpu⟩, answers, hline⟩ := h
  obtain ⟨⟨seg', hread', hcpu'⟩, answers', hline'⟩ := h'
  rw [hcpu, Cpu.segment_set_segment_self] at hread'
  refine ⟨⟨seg', ?_, ?_⟩, _, hline.append hline'⟩
  · rw [List.length_append]
    exact hread.append hread'
  · rw [hcpu', hcpu, Cpu.set_segment_set_segment]

omit [PagedMemory M] [PageView M] in
/-- A chunk that is not the last has all the bytes it can have. -/
theorem cut_first {k : ℕ} {xs ys : Bytes} (hle : xs.length ≤ k)
    (hlast : ys ≠ [] → xs.length = k) : (xs ++ ys).take k = xs ∧ (xs ++ ys).drop k = ys := by
  by_cases hys : ys = []
  · rw [hys, List.append_nil]
    exact ⟨List.take_of_length_le hle, List.drop_of_length_le hle⟩
  · exact ⟨List.take_left' (hlast hys), List.drop_left' (hlast hys)⟩

/-- A turn of the loop: a chunk is read and sent. -/
theorem send_chunk {n : ℕ} (message : Bytes → Bytes) {chunk answer : Bytes} (hn : n < 2 ^ 32)
    (hread : on_segment k (MemorySegment.read_buffer ptr n) s = .ok chunk s₁)
    (hsay : (exchange (message chunk) : Ecall M Bytes) s₁ = .ok answer s') :
    chunk.length = n ∧ Sent k ptr chunk [message chunk] s s' := by
  obtain ⟨seg', hbuffer, rfl⟩ := Exec.zoom_ok.mp hread
  obtain ⟨-, hfrom⟩ := MemorySegment.read_buffer_ok hn hbuffer
  obtain ⟨hcpu, hline⟩ := exchange_ok hsay
  refine ⟨hfrom.length, ⟨seg', ?_, hcpu⟩, _, hline⟩
  rw [hfrom.length]
  exact hfrom

theorem send_loop_ok : ∀ {fuel size : ℕ} {ptr : U32} {s s' : CommEcallHandler × Cpu M} {u : Unit},
    size ≤ fuel → size < 2 ^ 32 →
    handle_send_buffer.loop k (fun _ data => SendBufferContinuedMessage.serialize data) (255 - 1)
      fuel ptr size s = .ok u s' →
    ∃ data, data.length = size ∧
      Sent k ptr data ((chunks 254 data).map SendBufferContinuedMessage.serialize) s s' := by
  intro fuel
  induction fuel with
  | zero =>
      intro size ptr s s' u hfuel hsize h
      cases h
      obtain rfl : size = 0 := by omega
      refine ⟨[], rfl, ?_⟩
      rw [chunks_nil]
      exact .nil s k ptr
  | succ fuel ih =>
      intro size ptr s s' u hfuel hsize h
      rw [handle_send_buffer.loop] at h
      split at h
      · next hzero =>
          cases h
          subst hzero
          refine ⟨[], rfl, ?_⟩
          rw [chunks_nil]
          exact .nil s k ptr
      · next hpos =>
          obtain ⟨chunk, s₁, hread, h⟩ := Exec.bind_ok.mp h
          obtain ⟨answer, s₂, hsay, h⟩ := Exec.bind_ok.mp h
          obtain ⟨hlen, hfirst⟩ := send_chunk SendBufferContinuedMessage.serialize (by omega) hread hsay
          obtain ⟨data, hdata, hrest⟩ := ih (by omega) (by omega) h
          rw [← hlen] at hrest
          refine ⟨chunk ++ data, by rw [List.length_append]; omega, ?_⟩
          have hcut : (chunk ++ data).take 254 = chunk ∧ (chunk ++ data).drop 254 = data :=
            cut_first (by omega) fun hne => by
            have := List.length_pos_of_ne_nil hne
            omega
          rw [chunks_of_ne_nil (by omega) (List.ne_nil_of_length_pos (by
            rw [List.length_append]; omega)), hcut.1, hcut.2, List.map_cons]
          exact hfirst.append hrest

/-- A buffer that was sent is in the messages, whatever the guest's memory did in
between. -/
theorem handle_send_buffer_ok {size : ℕ} {buffer_type : BufferType} {u : Unit}
    (h : handle_send_buffer ptr size buffer_type s = .ok u s') :
    ∃ data answers, data.length = size ∧ size < 2 ^ 32 ∧
      Exchanged (sendMessages buffer_type data) answers s.1 s'.1 ∧
      (size = 0 ∧ s'.2 = s.2 ∨ ∃ k seg', s.2.owner ptr = some k ∧
        MemorySegment.ReadFrom (s.2.segment k) ptr size data seg' ∧
        s'.2 = s.2.set_segment k seg') := by
  rw [handle_send_buffer] at h
  split at h
  · next hzero =>
      subst hzero
      obtain ⟨answer, s₁, hsay, h⟩ := Exec.bind_ok.mp h
      cases h
      obtain ⟨hcpu, hline⟩ := exchange_ok hsay
      exact ⟨[], [answer], rfl, by omega, by simpa [sendMessages] using hline, .inl ⟨rfl, hcpu⟩⟩
  · next hpos =>
      obtain ⟨hfit, h₁⟩ := Exec.reject_bind_ok.mp h
      obtain ⟨k, s₁, hget, h₂⟩ := Exec.bind_ok.mp h₁
      obtain ⟨howner, rfl⟩ := get_segment_ok hget
      obtain ⟨fuel, rfl⟩ : ∃ n, size = n + 1 := ⟨size - 1, by omega⟩
      rw [handle_send_buffer.loop, if_neg hpos] at h₂
      obtain ⟨chunk, s₂, hread, h₃⟩ := Exec.bind_ok.mp h₂
      obtain ⟨answer, s₃, hsay, h₄⟩ := Exec.bind_ok.mp h₃
      obtain ⟨hlen, hfirst⟩ := send_chunk (fun data => SendBufferMessage.serialize
        { buffer_type, total_size := BitVec.ofNat 32 (fuel + 1), data }) (by omega) hread hsay
      obtain ⟨data, hdata, hrest⟩ := send_loop_ok (by omega) (by omega) h₄
      rw [← hlen] at hrest
      have htotal : (chunk ++ data).length = fuel + 1 := by rw [List.length_append]; omega
      obtain ⟨⟨seg', hread', hcpu⟩, answers, hline⟩ := hfirst.append hrest
      refine ⟨chunk ++ data, answers, htotal, by omega, ?_, .inr ⟨k, seg', howner, ?_, hcpu⟩⟩
      · have hcut : (chunk ++ data).take 249 = chunk ∧ (chunk ++ data).drop 249 = data :=
          cut_first (by omega) fun hne => by
          have := List.length_pos_of_ne_nil hne
          omega
        rw [sendMessages, hcut.1, hcut.2, htotal]
        exact hline
      · rw [htotal] at hread'
        exact hread'

/-! ## Receiving -/

/-- The host's answers, and the bytes in them. -/
structure Carries (answers : List Bytes) (data : Bytes) : Prop where
  chunks : ∃ responses, List.Forall₂
    (fun answer response => ReceiveBufferResponse.deserialize answer = .ok response)
    answers responses ∧ data = (responses.map ReceiveBufferResponse.content).flatten

omit [PagedMemory M] [PageView M] in
theorem Carries.nil : Carries [] [] := ⟨[], .nil, rfl⟩

omit [PagedMemory M] [PageView M] in
theorem Carries.cons {answers : List Bytes} {answer data : Bytes}
    {response : ReceiveBufferResponse}
    (h : ReceiveBufferResponse.deserialize answer = .ok response) (h' : Carries answers data) :
    Carries (answer :: answers) (response.content ++ data) := by
  obtain ⟨responses, hall, rfl⟩ := h'
  exact ⟨response :: responses, .cons h hall, rfl⟩

/-- The host's answers carry `data`, and it was written from `ptr` on. -/
structure Received (k : Cpu.Segment) (ptr : U32) (data : Bytes)
    (s s' : CommEcallHandler × Cpu M) : Prop where
  line : ∃ answers, Carries answers data ∧
    Exchanged (List.replicate answers.length ReceiveBufferMessage.serialize) answers s.1 s'.1
  fit : ptr.toNat + data.length ≤ 2 ^ 32
  written : ∃ seg', MemorySegment.Written (s.2.segment k) ptr data seg' ∧
    s'.2 = s.2.set_segment k seg'

/-- A first part of a buffer was written, and nothing else happened to the memory. -/
def Damaged (k : Cpu.Segment) (ptr : U32) (data : Bytes) (cpu cpu' : Cpu M) : Prop :=
  ptr.toNat + data.length ≤ 2 ^ 32 ∧
    ∃ seg', MemorySegment.Wrote (cpu.segment k) ptr data seg' ∧ cpu' = cpu.set_segment k seg'

theorem Damaged.refl (k : Cpu.Segment) (ptr : U32) (cpu : Cpu M) : Damaged k ptr [] cpu cpu :=
  ⟨ptr.isLt.le, _, (MemorySegment.Same.refl _).wrote ptr, (Cpu.set_segment_segment _ _).symm⟩

/-- The most that is left to come. -/
def bound (max_size : U32) : Option U32 → U32
  | none => max_size
  | some remaining => remaining

omit [PagedMemory M] [PageView M] in
theorem expect_ok {remaining_length : Option U32} {max_size announced curr : U32}
    (h : (handle_xrecv.expect remaining_length max_size announced : Ecall M U32) s =
      .ok curr s') :
    s' = s ∧ curr = announced ∧ curr.toNat ≤ (bound max_size remaining_length).toNat ∧
      ∀ remaining, remaining_length = some remaining → curr = remaining := by
  cases remaining_length with
  | none =>
      obtain ⟨hle, h'⟩ := Exec.reject_bind_ok.mp h
      cases h'
      exact ⟨rfl, rfl, BitVec.le_def.mp (BitVec.not_lt.mp hle), fun _ he => by cases he⟩
  | some remaining =>
      obtain ⟨he, h'⟩ := Exec.reject_bind_ok.mp h
      cases h'
      rw [not_not] at he
      refine ⟨rfl, he, Nat.le_refl _, fun _ hr => ?_⟩
      cases hr
      rfl

omit [PagedMemory M] [PageView M] in
theorem expect_preserves {I : CommEcallHandler × Cpu M → Prop} (remaining_length : Option U32)
    (max_size announced : U32) :
    Exec.Preserves I (handle_xrecv.expect remaining_length max_size announced : Ecall M U32) := by
  cases remaining_length with
  | none => exact (Exec.Preserves.reject _ _).bind fun _ => .pure _
  | some remaining => exact (Exec.Preserves.reject _ _).bind fun _ => .pure _

omit [PagedMemory M] [PageView M] in
theorem content_length_le {answer : Bytes} {response : ReceiveBufferResponse}
    (h : ReceiveBufferResponse.deserialize answer = .ok response) :
    response.content.length ≤ response.remaining_length.toNat := by
  unfold ReceiveBufferResponse.deserialize at h
  split at h
  · cases h
  · dsimp only at h
    split at h
    · cases h
    · next hle =>
        cases h
        rw [List.length_drop]
        exact Nat.not_lt.mp hle

/-- A turn of the loop up to the write, and what is known then. -/
structure Turn (max_size : U32) (remaining_length : Option U32)
    (s s₁ : CommEcallHandler × Cpu M) (response : ReceiveBufferResponse) : Prop where
  cpu : s₁.2 = s.2
  line : ∃ answer, ReceiveBufferResponse.deserialize answer = .ok response ∧
    Exchanged [ReceiveBufferMessage.serialize] [answer] s.1 s₁.1
  le : response.remaining_length.toNat ≤ (bound max_size remaining_length).toNat
  eq : ∀ remaining, remaining_length = some remaining → response.remaining_length = remaining
  content : response.content.length ≤ response.remaining_length.toNat

omit [PageView M] in
/-- The loop returned: it was done, or a chunk was written and the rest returned. -/
theorem xrecv_loop_cases {max_size : U32} {fuel : ℕ} {remaining_length : Option U32}
    {total n : ℕ}
    (h : handle_xrecv.loop k max_size fuel remaining_length ptr total s = .ok n s') :
    remaining_length = some 0 ∧ n = total ∧ s' = s ∨
      ∃ fuel' s₁ response seg', fuel = fuel' + 1 ∧ Turn max_size remaining_length s s₁ response ∧
        MemorySegment.write_buffer ptr response.content (s.2.segment k) = .ok () seg' ∧
        handle_xrecv.loop k max_size fuel'
          (some (response.remaining_length - BitVec.ofNat 32 response.content.length))
          (ptr + BitVec.ofNat 32 response.content.length) (total + response.content.length)
          (s₁.1, s.2.set_segment k seg') = .ok n s' := by
  cases fuel with
  | zero => cases h
  | succ fuel =>
      rw [handle_xrecv.loop] at h
      split at h
      · next hdone =>
          cases h
          exact .inl ⟨hdone, rfl, rfl⟩
      · next hmore =>
          obtain ⟨answer, s₁, hsay, h₁⟩ := Exec.bind_ok.mp h
          obtain ⟨hcpu, hline⟩ := exchange_ok hsay
          obtain ⟨response, hresponse, h₂⟩ := Exec.ofExcept_bind_ok.mp h₁
          obtain ⟨curr, s₂, hexpect, h₃⟩ := Exec.bind_ok.mp h₂
          obtain ⟨rfl, rfl, hle, heq⟩ := expect_ok hexpect
          obtain ⟨_, s₃, hwrite, h₄⟩ := Exec.bind_ok.mp h₃
          obtain ⟨seg', hbuffer, rfl⟩ := Exec.zoom_ok.mp hwrite
          obtain ⟨-, h₅⟩ := Exec.reject_bind_ok.mp h₄
          rw [hcpu] at hbuffer h₅
          exact .inr ⟨fuel, s₂, response, seg', rfl,
            ⟨hcpu, ⟨answer, hresponse, hline⟩, hle, heq, content_length_le hresponse⟩, hbuffer, h₅⟩

theorem xrecv_loop_ok {max_size : U32} : ∀ {fuel : ℕ} {remaining_length : Option U32}
    {ptr : U32} {total n : ℕ} {s s' : CommEcallHandler × Cpu M},
    PageView.Live (s.2.segment k).paged_memory →
    handle_xrecv.loop k max_size fuel remaining_length ptr total s = .ok n s' →
    ∃ data, n = total + data.length ∧ data.length ≤ (bound max_size remaining_length).toNat ∧
      (∀ remaining, remaining_length = some remaining → data.length = remaining.toNat) ∧
      Received k ptr data s s' := by
  intro fuel
  induction fuel with
  | zero =>
      intro remaining_length ptr total n s s' hlive h
      cases h
  | succ fuel ih =>
      intro remaining_length ptr total n s s' hlive h
      rcases xrecv_loop_cases h with ⟨rfl, rfl, rfl⟩ | ⟨_, s₁, response, seg', he, hturn, hwrite, hrest⟩
      · refine ⟨[], rfl, Nat.zero_le _, fun _ hr => by cases hr; rfl, ⟨[], .nil, .nil _⟩,
          ptr.isLt.le, _, ⟨(MemorySegment.Same.refl _).wrote ptr, hlive, id⟩,
          (Cpu.set_segment_segment _ _).symm⟩
      · obtain rfl := Nat.succ.inj he
        have hcontent := hturn.content
        have hlt := response.remaining_length.isLt
        obtain ⟨hfirst, hwritten⟩ := MemorySegment.write_buffer_ok hlive (by omega) hwrite
        obtain ⟨data, rfl, -, hall, hline, hfit, seg₂, hwritten', hcpu⟩ := ih
          (by rw [Cpu.segment_set_segment_self]; exact hwritten.live) hrest
        rw [MemorySegment.add_toNat hfirst (Nat.le_refl _)] at hfit
        have hdata := hall _ rfl
        rw [BitVec.toNat_sub, BitVec.toNat_ofNat] at hdata
        have htotal : (response.content ++ data).length = response.remaining_length.toNat := by
          rw [List.length_append]
          omega
        refine ⟨response.content ++ data, by rw [List.length_append, Nat.add_assoc], ?_, ?_, ?_,
          by rw [List.length_append]; omega, ?_⟩
        · rw [htotal]
          exact hturn.le
        · intro remaining hr
          rw [htotal, hturn.eq remaining hr]
        · obtain ⟨answers, hcarries, hexchanged⟩ := hline
          obtain ⟨answer, hanswer, hsaid⟩ := hturn.line
          exact ⟨answer :: answers, hcarries.cons hanswer, hsaid.append hexchanged⟩
        · rw [Cpu.segment_set_segment_self] at hwritten'
          rw [Cpu.set_segment_set_segment] at hcpu
          exact ⟨seg₂, ⟨hwritten.toWrote.append hwritten'.toWrote (by
            rw [← List.length_append]; omega), hwritten'.live,
            fun ht => hwritten.trusted (hwritten'.trusted ht)⟩, hcpu⟩

/-- Damage, and more of it behind. -/
theorem Damaged.append {cpu cpu₁ cpu' : Cpu M} {data data' : Bytes}
    (h : Damaged k ptr data cpu cpu₁)
    (h' : Damaged k (ptr + BitVec.ofNat 32 data.length) data' cpu₁ cpu')
    (hfit : ptr.toNat + data.length < 2 ^ 32) : Damaged k ptr (data ++ data') cpu cpu' := by
  obtain ⟨-, seg₁, hwrote, rfl⟩ := h
  obtain ⟨hfit', seg', hwrote', rfl⟩ := h'
  rw [MemorySegment.add_toNat hfit (Nat.le_refl _)] at hfit'
  rw [Cpu.segment_set_segment_self] at hwrote'
  exact ⟨by rw [List.length_append]; omega, seg', hwrote.append hwrote' (by omega),
    Cpu.set_segment_set_segment ..⟩

/-- A transfer that fails has written no more than it may receive. -/
theorem xrecv_loop_fails {max_size : U32} : ∀ {fuel : ℕ} {remaining_length : Option U32}
    {ptr : U32} {total : ℕ} {s s' : CommEcallHandler × Cpu M},
    PageView.Live (s.2.segment k).paged_memory →
    Exec.Fails (handle_xrecv.loop k max_size fuel remaining_length ptr total) s s' →
    ∃ data, data.length ≤ (bound max_size remaining_length).toNat ∧
      Damaged k ptr data s.2 s'.2 := by
  intro fuel
  induction fuel with
  | zero =>
      intro remaining_length ptr total s s' hlive h
      rcases h with ⟨e, h⟩ | h <;> cases h
      exact ⟨[], Nat.zero_le _, .refl k ptr _⟩
  | succ fuel ih =>
      intro remaining_length ptr total s s' hlive h
      rw [handle_xrecv.loop] at h
      split at h
      · exact absurd h (Exec.Infallible.pure _ _ _)
      · next hmore =>
          rcases Exec.bind_fails.mp h with hsay | ⟨answer, s₁, hsay, h₁⟩
          · rw [exchange_fails hsay]
            exact ⟨[], Nat.zero_le _, .refl k ptr _⟩
          obtain ⟨hcpu, -⟩ := exchange_ok hsay
          rw [← hcpu] at hlive ⊢
          rcases Exec.bind_fails.mp h₁ with hparse | ⟨response, s₂, hparse, h₂⟩
          · obtain rfl := (Exec.Preserves.ofExcept (I := (· = s₁)) _ _ rfl).fails hparse
            exact ⟨[], Nat.zero_le _, .refl k ptr _⟩
          obtain ⟨hresponse, rfl⟩ := Exec.ofExcept_ok.mp hparse
          rcases Exec.bind_fails.mp h₂ with hexpect | ⟨curr, s₃, hexpect, h₃⟩
          · obtain rfl := (expect_preserves (I := (· = s₂)) _ _ _ rfl).fails hexpect
            exact ⟨[], Nat.zero_le _, .refl k ptr _⟩
          obtain ⟨rfl, rfl, hle, -⟩ := expect_ok hexpect
          have hcontent := content_length_le hresponse
          have hlt := response.remaining_length.isLt
          rcases Exec.bind_fails.mp h₃ with hwrite | ⟨_, s₄, hwrite, h₄⟩
          · obtain ⟨seg', hbuffer, rfl⟩ := Exec.zoom_fails.mp hwrite
            obtain ⟨j, hfit, hwrote⟩ := MemorySegment.write_buffer_fails hlive (by omega) hbuffer
            refine ⟨response.content.take j, ?_, hfit, seg', hwrote, rfl⟩
            rw [List.length_take]
            omega
          obtain ⟨seg', hbuffer, rfl⟩ := Exec.zoom_ok.mp hwrite
          obtain ⟨hfit, hwritten⟩ := MemorySegment.write_buffer_ok hlive (by omega) hbuffer
          have hfirst : Damaged k ptr response.content s₃.2 (s₃.2.set_segment k seg') :=
            ⟨hfit.le, seg', hwritten.toWrote, rfl⟩
          rcases Exec.bind_fails.mp h₄ with hreject | ⟨_, s₅, hreject, h₅⟩
          · obtain ⟨-, rfl⟩ := Exec.reject_fails.mp hreject
            exact ⟨response.content, by omega, hfirst⟩
          obtain ⟨-, rfl⟩ := Exec.reject_ok.mp hreject
          obtain ⟨data, hdata, hrest⟩ := ih
            (by rw [Cpu.segment_set_segment_self]; exact hwritten.live) h₅
          rw [bound, BitVec.toNat_sub, BitVec.toNat_ofNat] at hdata
          refine ⟨response.content ++ data, ?_, hfirst.append hrest hfit⟩
          rw [List.length_append]
          omega

theorem handle_xrecv_ok {max_size : U32} {n : ℕ}
    (hlive : ∀ k, s.2.owner ptr = some k → PageView.Live (s.2.segment k).paged_memory)
    (h : handle_xrecv ptr max_size s = .ok n s') :
    ∃ k data, s.2.owner ptr = some k ∧ n = data.length ∧ n ≤ max_size.toNat ∧
      Received k ptr data s s' := by
  obtain ⟨k, s₁, hget, h₁⟩ := Exec.bind_ok.mp h
  obtain ⟨howner, rfl⟩ := get_segment_ok hget
  obtain ⟨data, rfl, hle, -, hreceived⟩ := xrecv_loop_ok (hlive k howner) h₁
  rw [Nat.zero_add]
  exact ⟨k, data, howner, rfl, hle, hreceived⟩

theorem handle_xrecv_fails {max_size : U32}
    (hlive : ∀ k, s.2.owner ptr = some k → PageView.Live (s.2.segment k).paged_memory)
    (h : Exec.Fails (handle_xrecv ptr max_size : Ecall M ℕ) s s') :
    s'.2 = s.2 ∨ ∃ k data, s.2.owner ptr = some k ∧ data.length ≤ max_size.toNat ∧
      Damaged k ptr data s.2 s'.2 := by
  rcases Exec.bind_fails.mp h with hget | ⟨k, s₁, hget, h₁⟩
  · exact .inl (by rw [get_segment_fails hget])
  obtain ⟨howner, rfl⟩ := get_segment_ok hget
  obtain ⟨data, hle, hdamaged⟩ := xrecv_loop_fails (hlive k howner) h₁
  exact .inr ⟨k, data, howner, hle, hdamaged⟩

end CommEcallHandler

end Vanadium
