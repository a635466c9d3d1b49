import Vanadium.Proofs.CpuStep
import Vanadium.Proofs.HostBuffers
import Vanadium.Proofs.PageService
import Vanadium.Vm.StartVapp

/-!
# The client's side of a buffer

Between two messages of a transfer the device may ask for pages, any number of
them, and commit others. The client serves them, and puts together the chunks
that come in between: what it hands on is the buffer the device cut up, and the
buffer it cuts up itself is what is in its answers.
-/

namespace Vanadium

open Lib Lib.Exec Dialogue

namespace Client.VAppEngine

variable {sha256 : Bytes → HashOutput 32} {e e₁ e' : VAppEngine} {d : Dialogue}
  {next : StatusWord × Bytes}

/-- An answer, the pages the device asks for after it, and the message it sends
then. -/
def round (answer : Bytes) (d : Dialogue) (next : StatusWord × Bytes) :
    List (APDUCommand × Option (StatusWord × Bytes)) :=
  (apdu_continue answer, some (heard d next)) :: served d next

/-- The pages asked for before each of several messages are served. -/
inductive ServesGaps (sha256 : Bytes → HashOutput 32) :
    VAppEngine → List Dialogue → VAppEngine → Prop
  | nil (e : VAppEngine) : ServesGaps sha256 e [] e
  | cons {e e₁ e' : VAppEngine} {d : Dialogue} {gaps : List Dialogue}
      (h : ServesAll sha256 e d e₁) (h' : ServesGaps sha256 e₁ gaps e') :
      ServesGaps sha256 e (d :: gaps) e'

theorem round_talks (h : ServesAll sha256 e d e') (hnext : Foreign next) (answer : Bytes) :
    Talks (exchange_and_process_page_requests sha256 (apdu_continue answer)) e
      (round answer d next) next e' :=
  h.exchange_and_process hnext answer

/-! ## From the device -/

/-- The rest of a buffer, with the pages asked for before each chunk. -/
def carried : List Dialogue → List Bytes → List (APDUCommand × Option (StatusWord × Bytes))
  | d :: gaps, message :: messages =>
      round [] d (.interruptedExecution, message) ++ carried gaps messages
  | _, _ => []

theorem carried_length {gaps : List Dialogue} {messages : List Bytes}
    (h : gaps.length = messages.length) : messages.length ≤ (carried gaps messages).length := by
  induction gaps generalizing messages with
  | nil => rw [← h]; exact Nat.zero_le _
  | cons d gaps ih =>
      cases messages with
      | nil => exact Nat.zero_le _
      | cons message messages =>
          have := ih (Nat.succ.inj h)
          rw [carried, List.length_append, List.length_cons, round, List.length_cons]
          omega

theorem send_loop_talks : ∀ {fuel : ℕ} {gaps : List Dialogue} {data : List Bytes}
    {remaining_len : U32} {buf : Bytes} {e : VAppEngine}, gaps.length = data.length →
    ServesGaps sha256 e gaps e' → (∀ c ∈ data, c ≠ []) →
    remaining_len.toNat = data.flatten.length → data.length < fuel →
    Talks (process_send_buffer_generic.loop sha256 fuel remaining_len buf) e
      (carried gaps (data.map SendBufferContinuedMessage.serialize)) (buf ++ data.flatten) e' := by
  intro fuel
  induction fuel with
  | zero => intro gaps data remaining_len buf e _ _ _ _ hfuel; omega
  | succ fuel ih =>
      intro gaps data remaining_len buf e hlen hgaps hne hremaining hfuel
      rw [process_send_buffer_generic.loop]
      cases hgaps with
      | nil =>
          obtain rfl : data = [] := List.length_eq_zero_iff.mp hlen.symm
          have hzero : remaining_len = 0 := BitVec.eq_of_toNat_eq hremaining
          rw [if_neg (by rw [hzero]; decide), List.flatten_nil, List.append_nil]
          exact .pure _
      | cons hserves hrest =>
          cases data with
          | nil => cases hlen
          | cons c data =>
              rw [List.flatten_cons, List.length_append] at hremaining
              have hc := List.length_pos_of_ne_nil (hne c List.mem_cons_self)
              have hmore : remaining_len > 0 := BitVec.lt_def.mpr (by simp; omega)
              have hlt := remaining_len.isLt
              rw [if_pos hmore, List.map_cons, carried, List.flatten_cons, ← List.append_assoc]
              refine (round_talks hserves (.inr (.inr ⟨.sendBufferContinued, rfl, by decide,
                by decide⟩)) []).bind ?_
              refine .reject_bind (by simp) (.reject_bind (by simp [SendBufferContinuedMessage.serialize])
                (.ofExcept_bind (SendBufferContinuedMessage.deserialize_serialize c)
                  (.reject_bind (by omega) ?_)))
              refine ih (Nat.succ.inj hlen) hrest (fun x hx => hne x (List.mem_cons_of_mem c hx)) ?_
                (Nat.lt_of_succ_lt_succ hfuel)
              rw [BitVec.toNat_sub, BitVec.toNat_ofNat]
              omega

/-- What the client hands on is the buffer that the device sent, whatever pages
the device asked for between its messages. -/
theorem process_send_buffer_talks {data : Bytes} (hdata : data.length < 2 ^ 32)
    {gaps : List Dialogue} (hlen : gaps.length = (chunks 254 (data.drop 249)).length)
    (hgaps : ServesGaps sha256 e gaps e₁) (hlast : ServesAll sha256 e₁ d e')
    (hnext : Foreign next) :
    Talks (process_send_buffer sha256 (SendBufferMessage.serialize
        { buffer_type := .vAppMessage, total_size := BitVec.ofNat 32 data.length
          data := data.take 249 })) e
      (carried gaps ((chunks 254 (data.drop 249)).map SendBufferContinuedMessage.serialize) ++
        round [] d next)
      (some (.message data))
      { e' with current_status := next.1, current_result := next.2 } := by
  have hsize : (BitVec.ofNat 32 data.length).toNat = data.length := by
    rw [BitVec.toNat_ofNat, Nat.mod_eq_of_lt hdata]
  have hfirst : (data.take 249).length = min 249 data.length := List.length_take
  have hflat : (chunks 254 (data.drop 249)).flatten = data.drop 249 := flatten_chunks (by omega) _
  have hrest : Talks (deliver data .vAppMessage >>= fun response => do
      let r ← exchange_and_process_page_requests sha256 (apdu_continue [])
      set_current r
      pure response) e₁ (round [] d next) (some (VAppResponse.message data))
      { e' with current_status := next.1, current_result := next.2 } :=
    .quiet_bind (.pure _) ((round_talks hlast hnext []).bind_quiet
      (.quiet_bind (.modify fun _ _ => rfl) (.pure _)))
  refine Talks.bind (t := e₁) (a := (BufferType.vAppMessage, data)) ?_ hrest
  refine .ofExcept_bind (SendBufferMessage.deserialize_serialize _ ?_) ?_
  · dsimp only
    rw [hsize, hfirst]
    omega
  refine .reject_bind ?_ (.get_bind fun answers said => ?_)
  · dsimp only
    rw [hsize, hfirst]
    omega
  have hloop := @send_loop_talks sha256 _ (((carried gaps ((chunks 254
      (data.drop 249)).map SendBufferContinuedMessage.serialize)).map Prod.snd ++ answers).length + 1)
    _ _ (BitVec.ofNat 32 data.length - BitVec.ofNat 32 (data.take 249).length)
    (data.take 249) _ hlen hgaps (fun c hc => (mem_chunks (by omega) _ c hc).1) (by
      rw [hflat, BitVec.toNat_sub, hsize, BitVec.toNat_ofNat, List.length_drop, hfirst]
      omega) (by
      have hmessages : gaps.length = ((chunks 254 (data.drop 249)).map
          SendBufferContinuedMessage.serialize).length := by rw [List.length_map, hlen]
      have := carried_length hmessages
      rw [List.length_map] at this
      rw [List.length_append, List.length_map]
      omega)
  rw [hflat, List.take_append_drop] at hloop
  exact hloop.bind_quiet (.pure _)

end Client.VAppEngine

/-! ## A transfer -/

variable {M : Type} [PagedMemory M] [PageView M]

/-- What is in the guest's memory, segment by segment. What is written to the data
or to the stack is not forgotten. -/
structure Cpu.Holds (cpu : Cpu M) (mem : Cpu.Segment → U32 → U8) : Prop where
  shows : ∀ k, (cpu.segment k).Shows (mem k)
  live : ∀ k ≠ .code_seg, PageView.Live (cpu.segment k).paged_memory

namespace CommEcallHandler

open ByteMap (load store)
open Client (VAppEngine StatusWord)
open Client.VAppEngine (ServesAll ServesGaps Foreign)

variable {mem : Cpu.Segment → U32 → U8} {cpu cpu' : Cpu M} {k : Cpu.Segment}

theorem holds_read {seg' : MemorySegment M} {ptr : U32} {data : Bytes} {n : ℕ}
    (h : cpu.Holds mem) (hread : MemorySegment.ReadFrom (cpu.segment k) ptr n data seg') :
    (cpu.set_segment k seg').Holds mem := by
  constructor
  · intro j
    rw [Cpu.segment_set_segment]
    split
    · next he =>
        subst he
        exact hread.same.shows _ (h.shows j)
    · exact h.shows j
  · intro j hj
    rw [Cpu.segment_set_segment]
    split
    · next he =>
        subst he
        exact hread.live (h.live j hj)
    · exact h.live j hj

/-- The memory with a buffer in the segment `k`. -/
def put (mem : Cpu.Segment → U32 → U8) (k : Cpu.Segment) (ptr : U32) (data : Bytes) :
    Cpu.Segment → U32 → U8 :=
  Function.update mem k (store (mem k) ptr data)

theorem put_changes {ptr a : U32} {data : Bytes} {j : Cpu.Segment}
    (hfit : ptr.toNat + data.length ≤ 2 ^ 32) (h : put mem k ptr data j a ≠ mem j a) :
    j = k ∧ ptr.toNat ≤ a.toNat ∧ a.toNat < ptr.toNat + data.length := by
  by_cases hj : j = k
  · subst hj
    rw [put, Function.update_self] at h
    refine ⟨rfl, ?_⟩
    by_contra hout
    exact h (ByteMap.store_outside hfit (by omega))
  · rw [put, Function.update_of_ne hj] at h
    exact absurd rfl h

theorem shows_put {seg' : MemorySegment M} {ptr : U32} {data : Bytes}
    (h : ∀ k, (cpu.segment k).Shows (mem k))
    (hwrote : MemorySegment.Wrote (cpu.segment k) ptr data seg') (j : Cpu.Segment) :
    ((cpu.set_segment k seg').segment j).Shows (put mem k ptr data j) := by
  rw [Cpu.segment_set_segment]
  split
  · next he =>
      subst he
      rw [put, Function.update_self]
      exact hwrote.shows _ (h j)
  · next he =>
      rw [put, Function.update_of_ne he]
      exact h j

end CommEcallHandler

open ByteMap (load)
open Client (VAppEngine StatusWord)
open Client.VAppEngine (ServesAll ServesGaps Foreign carried round process_send_buffer)

/-- A buffer that the V-App sends is handed on by the client, whatever pages the
device asks for in between. A buffer that it receives, outside the code, is what is
in the host's answers, and it is all that changes; a transfer that fails has
changed nothing outside of what the V-App offered. -/
theorem buffers_transferred {s s' : CommEcallHandler × Cpu M} {mem : Cpu.Segment → U32 → U8}
    (h : s.2.Holds mem) (buffer : GuestPointer) :
    (∀ size : ℕ, CommEcallHandler.handle_xsend buffer size s = .ok () s' →
      (∀ k, PageView.Trusted (s'.2.segment k).paged_memory) →
      ∃ messages answers data,
        CommEcallHandler.Exchanged messages answers s.1 s'.1 ∧ s'.2.Holds mem ∧
        data.length = size ∧
        (size ≠ 0 → ∃ k, s.2.owner buffer = some k ∧ data = load (mem k) buffer size) ∧
        ∀ (sha256 : Bytes → HashOutput 32) (e e₁ e' : VAppEngine) (gaps : List Dialogue)
          (d : Dialogue) (next : StatusWord × Bytes), gaps.length = messages.tail.length →
          ServesGaps sha256 e gaps e₁ → ServesAll sha256 e₁ d e' → Foreign next →
          Talks (process_send_buffer sha256 (messages.headD [])) e
            (carried gaps messages.tail ++ round [] d next) (some (.message data))
            { e' with current_status := next.1, current_result := next.2 }) ∧
    (s.2.owner buffer ≠ some .code_seg → ∀ max_size : U32,
      (∀ n, CommEcallHandler.handle_xrecv buffer max_size s = .ok n s' →
        ∃ k answers data mem', s.2.owner buffer = some k ∧
          CommEcallHandler.Carries answers data ∧
          CommEcallHandler.Exchanged
            (List.replicate answers.length ReceiveBufferMessage.serialize) answers s.1 s'.1 ∧
          n = data.length ∧ n ≤ max_size.toNat ∧ s'.2.Holds mem' ∧
          load (mem' k) buffer n = data ∧
          ∀ j a, mem' j a ≠ mem j a →
            j = k ∧ buffer.toNat ≤ a.toNat ∧ a.toNat < buffer.toNat + n) ∧
      (Exec.Fails (CommEcallHandler.handle_xrecv buffer max_size) s s' →
        ∃ mem' : Cpu.Segment → U32 → U8, (∀ k, (s'.2.segment k).Shows (mem' k)) ∧
          ∀ k a, mem' k a ≠ mem k a → s.2.owner buffer = some k ∧
            buffer.toNat ≤ a.toNat ∧ a.toNat < buffer.toNat + max_size.toNat)) := by
  refine ⟨fun size hsend htrust => ?_, fun hcode max_size => ⟨fun n hrecv => ?_, fun hfails => ?_⟩⟩
  · obtain ⟨data, answers, hlen, hsize, hline, hread⟩ :=
      CommEcallHandler.handle_send_buffer_ok hsend
    refine ⟨CommEcallHandler.sendMessages .vAppMessage data, answers, data, hline, ?_, hlen, ?_, ?_⟩
    · rcases hread with ⟨-, hcpu⟩ | ⟨k, seg', -, hread, hcpu⟩
      · rw [hcpu]
        exact h
      · rw [hcpu]
        exact CommEcallHandler.holds_read h hread
    · intro hpos
      rcases hread with ⟨hzero, -⟩ | ⟨k, seg', howner, hread, hcpu⟩
      · exact absurd hzero hpos
      · refine ⟨k, howner, hread.bytes ?_ _ (h.shows k)⟩
        have := htrust k
        rwa [hcpu, Cpu.segment_set_segment_self] at this
    · intro sha256 e e₁ e' gaps d next hgaps hserves hlast hnext
      refine Client.VAppEngine.process_send_buffer_talks (by omega) ?_ hserves hlast hnext
      rw [hgaps, CommEcallHandler.sendMessages, List.tail_cons, List.length_map]
  · have hlive : ∀ k, s.2.owner buffer = some k → PageView.Live (s.2.segment k).paged_memory :=
      fun k hk => h.live k fun he => hcode (he ▸ hk)
    obtain ⟨k, data, howner, rfl, hle, ⟨answers, hcarries, hline⟩, hfit, seg', hwritten, hcpu⟩ :=
      CommEcallHandler.handle_xrecv_ok hlive hrecv
    refine ⟨k, answers, data, CommEcallHandler.put mem k buffer data, howner, hcarries, hline, rfl,
      hle, ⟨?_, ?_⟩, ?_, fun j a => CommEcallHandler.put_changes hfit⟩
    · rw [hcpu]
      exact CommEcallHandler.shows_put h.shows hwritten.toWrote
    · intro j hj
      rw [hcpu, Cpu.segment_set_segment]
      split
      · exact hwritten.live
      · exact h.live j hj
    · rw [CommEcallHandler.put, Function.update_self]
      exact ByteMap.load_store (by omega)
  · have hlive : ∀ k, s.2.owner buffer = some k → PageView.Live (s.2.segment k).paged_memory :=
      fun k hk => h.live k fun he => hcode (he ▸ hk)
    rcases CommEcallHandler.handle_xrecv_fails hlive hfails with hcpu | ⟨k, data, howner, hle, hfit,
      seg', hwrote, hcpu⟩
    · refine ⟨mem, fun k => ?_, fun k a hne => absurd rfl hne⟩
      rw [hcpu]
      exact h.shows k
    · refine ⟨CommEcallHandler.put mem k buffer data, ?_, fun j a hne => ?_⟩
      · rw [hcpu]
        exact CommEcallHandler.shows_put h.shows hwrote
      · obtain ⟨rfl, hlo, hhi⟩ := CommEcallHandler.put_changes hfit hne
        exact ⟨howner, hlo, by omega⟩

/-- A handler for which the host has four bytes, in two chunks. -/
def CommEcallHandler.two_chunks : CommEcallHandler where
  comm := { replies := [.ok [0, 0, 0, 4, 7, 8, 9], .ok [0, 0, 0, 1, 6]] }
  ux_handler := UxHandler.new none
  vapp_hash := Vector.replicate 32 0
  n_storage_slots := 0
  storage := []
  events := []
  n_random := 0

theorem Cpu.straddling_holds : straddling.Holds fun k => (straddling.segment k).bytes where
  shows k := by
    refine MemorySegment.Backed.holds (.of_size ?_ ?_) <;> cases k <;> decide
  live _ _ := trivial

theorem buffers_transferred_two_chunks : ∃ (s' : CommEcallHandler × Cpu VecMemory)
    (k : Cpu.Segment) (answers : List Bytes) (mem' : Cpu.Segment → U32 → U8),
    CommEcallHandler.handle_xrecv 0x1004 8 (CommEcallHandler.two_chunks, Cpu.straddling) =
      .ok 4 s' ∧ s'.2.Holds mem' ∧ CommEcallHandler.Carries answers (load (mem' k) 0x1004 4) := by
  have hrun : ∃ s', CommEcallHandler.handle_xrecv 0x1004 8
      (CommEcallHandler.two_chunks, Cpu.straddling) = .ok 4 s' := ⟨_, rfl⟩
  obtain ⟨s', hrun⟩ := hrun
  obtain ⟨k, answers, data, mem', -, hcarries, -, -, -, hholds, hload, -⟩ :=
    ((@buffers_transferred _ _ _ (CommEcallHandler.two_chunks, Cpu.straddling) s' _
      Cpu.straddling_holds 0x1004).2 (by decide) 8).1 4 hrun
  exact ⟨s', k, answers, mem', hrun, hholds, by rw [hload]; exact hcarries⟩

namespace Forgotten

/-- 26 pages of code. -/
def manifest : Manifest where
  manifest_version := 1
  vapp_name := "a"
  vapp_version := "1"
  entrypoint := 0
  code_start := 0
  code_end := 0x1a00
  code_merkle_root := Vector.replicate 32 0
  data_start := 0x2000
  data_end := 0x2100
  data_merkle_root := Vector.replicate 32 0
  stack_start := 0x3000
  stack_end := 0x3100
  stack_merkle_root := Vector.replicate 32 0
  n_storage_slots := 0

def device : Device where
  sha256 _ := Vector.replicate 32 0
  hmac_sha256 _ _ := some (Vector.replicate 32 0)
  auth_key := Vector.replicate 32 0

/-- A page of zero bytes with its tag. -/
def page : Bytes :=
  GetPageResponse.serialize (OutsourcedMemory.tagResponse (Vector.replicate 256 0)
    (Vector.replicate 32 0))

/-- `n` pages of ones, each in a chunk of its own. -/
def ones : ℕ → List Bytes
  | 0 => []
  | n + 1 => ReceiveBufferResponse.serialize
      { remaining_length := BitVec.ofNat 32 (256 * (n + 1)), content := List.replicate 256 1 } ::
        ones n

/-- The cache of the code has its 24 pages. -/
def world : Surroundings where
  code_replies := { replies := List.replicate 26 (.ok page) }
  data_replies := { replies := [] }
  stack_replies := { replies := [] }
  replies := { replies := (ones 25).map .ok }
  aes_key := { encrypt_block := fun _ => none }
  n_code_cache_pages := 24
  n_data_cache_pages := 8
  n_stack_cache_pages := 8
  storage := [some {
    vapp_hash := Vector.replicate 32 0
    storage_slots := Vector.replicate 4 (Vector.replicate STORAGE_SLOT_SIZE 0) }]
  last_event := none
  events := []

/-- 25 pages are received from address 0 on, and the first four bytes read back. -/
def observed : Option (ℕ × Bytes) :=
  letI := OutsourcedMemory.pagedMemory (E := BoxedStrategy) device
  do
    let s₀ ← handler_start_vapp.start device world manifest
    match CommEcallHandler.handle_xrecv 0 0x1900 s₀ with
    | .ok n s =>
        match CommEcallHandler.read_guest 0 4 s with
        | .ok bytes _ => some (n, bytes)
        | _ => none
    | _ => none

theorem ones_carries : ∀ n : ℕ, 256 * n < 2 ^ 32 →
    CommEcallHandler.Carries (ones n) (List.replicate (256 * n) 1)
  | 0, _ => .nil
  | n + 1, h => by
      have hsplit : List.replicate (256 * (n + 1)) (1 : U8) =
          List.replicate 256 1 ++ List.replicate (256 * n) 1 := by
        rw [← List.replicate_add, Nat.mul_succ, Nat.add_comm]
      rw [hsplit]
      refine (ones_carries n (by omega)).cons (ReceiveBufferResponse.deserialize_serialize
        { remaining_length := BitVec.ofNat 32 (256 * (n + 1)), content := List.replicate 256 1 } ?_)
      rw [List.length_replicate, BitVec.toNat_ofNat]
      omega

theorem observed_forgotten : observed = some (6400, [0, 0, 0, 0]) := by decide +kernel

end Forgotten

/-- In the code, the first page of the 25 has been dropped from the cache when the
last one is written: the transfer succeeds, and the guest reads what was there
before. -/
theorem received_code_forgotten :
    letI := OutsourcedMemory.pagedMemory (E := BoxedStrategy) Forgotten.device
    ∃ (s₀ s s' : CommEcallHandler × Cpu VappMemory) (n : ℕ),
      handler_start_vapp.start Forgotten.device Forgotten.world Forgotten.manifest = some s₀ ∧
      CommEcallHandler.handle_xrecv 0 0x1900 s₀ = .ok n s ∧
      CommEcallHandler.Carries (Forgotten.ones 25) (List.replicate n 1) ∧
      CommEcallHandler.read_guest 0 4 s = .ok [0, 0, 0, 0] s' := by
  have hrun := Forgotten.observed_forgotten
  simp only [Forgotten.observed, Option.bind_eq_bind, Option.bind_eq_some_iff] at hrun
  obtain ⟨s₀, hstart, hrun⟩ := hrun
  split at hrun
  · next n s hrecv =>
      split at hrun
      · next bytes s' hread =>
          cases hrun
          exact ⟨s₀, s, s', 6400, hstart, hrecv, Forgotten.ones_carries 25 (by decide), hread⟩
      · cases hrun
  · cases hrun

end Vanadium
