import Vanadium.Proofs.CodeSegment
import Vanadium.Proofs.EcallPanics

/-!
# The reservation

`LR.W` reserves the address it reads, and `SC.W` stores only to an address that
is still reserved. The stores of the processor and its atomic operations look
whether they touch the reserved word and end the reservation if they do. An
ECALL writes to the segments directly, past the functions that look.

A run is told as the list of what happened to the memory and to the reservation,
one event a turn; an error ends it. As long as no ECALL writes to a word while it
is reserved, what the processor remembers says the truth about that list.
-/

namespace Vanadium

open Lib Rv32

/-! ## The processor -/

namespace Cpu

variable {M E : Type} {cpu cpu' : Cpu M} {n v : U32}

/-- What a store of `w` bytes from `a` on leaves of a reservation. -/
def undisturbed (reserved : Option U32) : Option (U32 × ℕ) → Option U32
  | some (a, w) => reserved.filter fun r => ¬ Machine.overlaps a w r
  | none => reserved

/-- What an operation leaves reserved when it returns. -/
def reservation_after (cpu : Cpu M) (op : Op) : Option U32 :=
  match op with
  | .lrW _ rs1 => some (cpu.reg rs1)
  | .scW _ _ _ => none
  | op => undisturbed cpu.reservation_addr (cpu.target op)

/-- `m` leaves the reservation `r` alone. -/
abbrev Leaves {α : Type} (r : Option U32) (m : Exec (CpuError E) (Cpu M) α) : Prop :=
  Exec.Keeps False (fun cpu => cpu.reservation_addr = r) m

variable {r : Option U32} {α : Type}

theorem leaves_on_segment (s : Segment) (access : Exec MemoryError (MemorySegment M) α) :
    Leaves r (on_segment s access : Exec (CpuError E) (Cpu M) α) := by
  refine fun cpu hr => ⟨fun a cpu' h => ?_, fun _ _ _ hq => hq.elim⟩
  obtain ⟨seg, -, rfl⟩ := Exec.zoom_ok.mp h
  exact (set_segment_reservation ..).trans hr

theorem leaves_read (access : Exec MemoryError (MemorySegment M) α) (a : U32) :
    Leaves r (read access a : Exec (CpuError E) (Cpu M) α) := by
  refine Exec.Keeps.get.bind fun cpu => ?_
  split
  · exact leaves_on_segment _ _
  · split
    · exact leaves_on_segment _ _
    · split
      · exact leaves_on_segment _ _
      · exact .throw _

theorem leaves_write_segment (access : Exec MemoryError (MemorySegment M) Unit) (a : U32) :
    Leaves r (write_segment access a : Exec (CpuError E) (Cpu M) Unit) := by
  refine Exec.Keeps.get.bind fun cpu => ?_
  split
  · exact leaves_on_segment _ _
  · split
    · exact leaves_on_segment _ _
    · exact .throw _

theorem leaves_branch (rs1 rs2 : RegNum) (imm : I32) (taken : U32 → U32 → Bool) :
    Leaves r (branch n rs1 rs2 imm taken : Exec (CpuError E) (Cpu M) U32) :=
  Exec.Keeps.get.bind fun _ => .pure _

theorem leaves_load (rd rs1 : RegNum) (imm : I32)
    {value : U32 → Exec (CpuError E) (Cpu M) U32} (h : ∀ addr, Leaves r (value addr)) :
    Leaves r (load n rd rs1 imm value) :=
  Exec.Keeps.get.bind fun _ => (h _).bind fun value =>
    (Exec.Keeps.modify (f := fun cpu : Cpu M => cpu.set_reg rd value) fun _ hr => hr).bind
      fun _ => .pure n

/-- A store ends the reservation of the word it touches. -/
theorem write_reservation {access : Exec MemoryError (MemorySegment M) Unit} {a : U32} {w : ℕ}
    {u : Unit} (hw : 0 < w) (hw' : w < 2 ^ 32)
    (h : (write access (BitVec.ofNat 32 w) a : Exec (CpuError E) (Cpu M) Unit) cpu = .ok u cpu') :
    cpu'.reservation_addr = undisturbed cpu.reservation_addr (some (a, w)) := by
  obtain ⟨_, cpu₁, hwrite, h⟩ := Exec.bind_ok.mp h
  cases h
  rw [invalidate_reservation cpu₁ a hw hw', (leaves_write_segment access a rfl).ok hwrite]
  rfl

variable [PagedMemory M]

theorem amo_reservation {name : String} {rd rs1 rs2 : RegNum} {f : U32 → U32 → U32}
    (h : (amo n name rd rs1 rs2 f : Exec (CpuError E) (Cpu M) U32) cpu = .ok v cpu') :
    cpu'.reservation_addr = undisturbed cpu.reservation_addr (some (cpu.reg rs1, 4)) := by
  rw [amo, Exec.get_bind] at h
  obtain ⟨-, h⟩ := Exec.reject_bind_ok.mp h
  obtain ⟨old, cpu₁, hread, h⟩ := Exec.bind_ok.mp h
  obtain ⟨u, cpu₂, hwrite, h⟩ := Exec.bind_ok.mp h
  cases h
  rw [set_reg_reservation, write_reservation (by decide) (by decide) hwrite,
    (leaves_read _ _ rfl).ok hread]

theorem load_reserved_reservation {rd rs1 : RegNum}
    (h : (load_reserved n rd rs1 : Exec (CpuError E) (Cpu M) U32) cpu = .ok v cpu') :
    cpu'.reservation_addr = some (cpu.reg rs1) := by
  rw [load_reserved, Exec.get_bind] at h
  obtain ⟨-, h⟩ := Exec.reject_bind_ok.mp h
  obtain ⟨value, cpu₁, -, h⟩ := Exec.bind_ok.mp h
  cases h
  rfl

/-- `SC.W` stores if its address is the reserved one, and then leaves 0 in `rd`.
Otherwise it leaves 1, and the memory alone. -/
theorem store_conditional_inv {rd rs1 rs2 : RegNum}
    (h : (store_conditional n rd rs1 rs2 : Exec (CpuError E) (Cpu M) U32) cpu = .ok v cpu') :
    cpu'.reservation_addr = none ∧
      (cpu'.reg rd = 0 ∧ cpu.reservation_addr = some (cpu.reg rs1) ∨
        cpu'.reg rd = 1 ∧ ∀ s, cpu'.segment s = cpu.segment s) := by
  rw [store_conditional, Exec.get_bind] at h
  obtain ⟨-, h⟩ := Exec.reject_bind_ok.mp h
  have hrd (cpu : Cpu M) (value : U32) :
      ({ cpu.set_reg rd value with reservation_addr := none } : Cpu M).reg rd = value :=
    (reg_set_reg cpu rd value rd).trans (if_pos rfl)
  split at h
  · next hr =>
      obtain ⟨_, cpu₁, -, h⟩ := Exec.bind_ok.mp h
      cases h
      exact ⟨rfl, .inl ⟨hrd _ _, hr⟩⟩
  · cases h
    exact ⟨rfl, .inr ⟨hrd _ _, fun s => by cases s <;> rfl⟩⟩

theorem execute_op_reservation {op : Op}
    (h : (execute_op op n : Exec (CpuError E) (Cpu M) U32) cpu = .ok v cpu') :
    cpu'.reservation_addr = cpu.reservation_after op := by
  have hleaves {m : Exec (CpuError E) (Cpu M) U32} (hm : Leaves cpu.reservation_addr m)
      (h : m cpu = .ok v cpu') : cpu'.reservation_addr = cpu.reservation_addr := (hm rfl).ok h
  cases op <;> rw [execute_op] at h
  case lrW => exact load_reserved_reservation h
  case scW => exact (store_conditional_inv h).1
  case sb => exact write_reservation (by decide) (by decide) (store_inv h)
  case sh | sw =>
    exact write_reservation (by decide) (by decide) (Exec.reject_bind_ok.mp (store_inv h)).2
  case amoswapW | amoaddW | amoxorW | amoandW | amoorW | amominW | amomaxW | amominuW |
      amomaxuW => exact amo_reservation h
  case lb | lbu =>
    exact hleaves (leaves_load _ _ _ fun addr => (leaves_read _ _).bind fun _ => .pure _) h
  case lh | lhu =>
    exact hleaves (leaves_load _ _ _ fun addr => (Exec.Keeps.reject _ _).bind fun _ =>
      (leaves_read _ _).bind fun _ => .pure _) h
  case lw =>
    exact hleaves (leaves_load _ _ _ fun addr => (Exec.Keeps.reject _ _).bind fun _ =>
      leaves_read _ _) h
  case beq | bne | blt | bge | bltu | bgeu => exact hleaves (leaves_branch _ _ _ _) h
  case ecall | «break» | unknown => cases h
  all_goals
    cases h
    rfl

end Cpu

/-! ## What happened in a turn -/

namespace CommEcallHandler

variable {M : Type}

/-- The number of bytes that go through an output pointer of an ECALL that
returned: `returned` is what it left in `A0`. The first two return the length of
what they wrote. -/
def output_len (sdk : Sdk) (a : RegNum → U32) (returned : U32) (ecall_code : ℕ) : ℕ :=
  match ecall_code with
  | ECALL_XRECV | ECALL_ECDSA_SIGN => returned.toNat
  | ECALL_GET_EVENT => 16
  | ECALL_STORAGE_READ => STORAGE_SLOT_SIZE
  | ECALL_GET_RANDOM_BYTES => (a A1).toNat
  | ECALL_MODM => (a A2).toNat
  | ECALL_ADDM | ECALL_SUBM | ECALL_MULTM => (a A4).toNat
  | ECALL_MODINV_PRIME => (a A3).toNat
  | ECALL_POWM => (a A5).toNat
  | ECALL_HASH_INIT | ECALL_HASH_UPDATE => ((get_size_from_id sdk (a A0)).toOption).getD 0
  | ECALL_HASH_DIGEST => ((get_digest_len_from_id (a A0)).toOption).getD 0
  | ECALL_DERIVE_HD_NODE => 32
  | ECALL_DERIVE_SLIP21_KEY | ECALL_SCHNORR_SIGN => 64
  | ECALL_ECFP_ADD_POINT | ECALL_ECFP_SCALAR_MULT => 65
  | _ => 0

/-- What the ECALL of a turn from `s` to `s'` wrote. -/
def written (sdk : Sdk) (s s' : CommEcallHandler × Cpu M) : List (GuestPointer × ℕ) :=
  let ecall_code := (s.2.reg T0).toNat
  (outputs s.1 s.2.reg ecall_code).map fun ptr =>
    (ptr, output_len sdk s.2.reg (s'.2.reg A0) ecall_code)

/-- What a turn did to the memory and to the reservation. -/
inductive Event where
  /-- `LR.W` -/
  | reserve (address : U32)
  /-- `SC.W`, and whether it succeeded. -/
  | conditional (address : U32) (success : Bool)
  /-- The ranges a store, an atomic operation or an ECALL wrote; any other turn
  wrote none. -/
  | write (ranges : List (U32 × ℕ))
  deriving DecidableEq

variable [PagedMemory M]

/-- `SC.W` succeeds if it puts 0 into `rd`. -/
def succeeds (cpu : Cpu M) (n : U32) (rd rs1 rs2 : RegNum) : Bool :=
  match (Cpu.store_conditional n rd rs1 rs2 : Exec (CpuError CommEcallError) (Cpu M) U32) cpu with
  | .ok _ cpu' => cpu'.reg rd == 0
  | _ => false

/-- The event of a turn that executed `op` on `cpu` and ended in `s'`. -/
def op_event (sdk : Sdk) (s s' : CommEcallHandler × Cpu M) (cpu : Cpu M) (op : Op) (n : U32) :
    Event :=
  match op with
  | .lrW _ rs1 => .reserve (cpu.reg rs1)
  | .scW rd rs1 rs2 => .conditional (cpu.reg rs1) (succeeds cpu n rd rs1 rs2)
  | .ecall => .write (written sdk s s')
  | op => .write (cpu.target op).toList

def event (sdk : Sdk) (s s' : CommEcallHandler × Cpu M) : Event :=
  match (Cpu.fetch_instruction : Exec (CpuError CommEcallError) (Cpu M) U32) s.2 with
  | .ok inst cpu => op_event sdk s s' cpu (decode inst).1 (decode inst).2
  | _ => .write []

/-! ## What happened in a run -/

/-- The last `LR.W` was on `address`, there was no `SC.W` since, and nothing that
was written since touches the word at `address`. The latest event is the first. -/
def Reserved (address : U32) : List Event → Prop
  | [] => False
  | .reserve a :: _ => a = address
  | .conditional _ _ :: _ => False
  | .write ranges :: events =>
      (∀ range ∈ ranges, ¬ Machine.overlaps range.1 range.2 address) ∧ Reserved address events

instance (address : U32) : ∀ events, Decidable (Reserved address events)
  | [] => inferInstanceAs (Decidable False)
  | .reserve a :: _ => inferInstanceAs (Decidable (a = address))
  | .conditional _ _ :: _ => inferInstanceAs (Decidable False)
  | .write _ :: events =>
      have := instDecidableReserved address events
      inferInstanceAs (Decidable (_ ∧ _))

/-- The runs of the VM from `s`, with their events, in which `P` holds of every
turn. -/
inductive Runs (sdk : Sdk) (P : CommEcallHandler × Cpu M → CommEcallHandler × Cpu M → Prop)
    (s : CommEcallHandler × Cpu M) : List Event → CommEcallHandler × Cpu M → Prop
  | start : Runs sdk P s [] s
  | turn {events : List Event} {t t' : CommEcallHandler × Cpu M} (h : Runs sdk P s events t)
      (ht : P t t') (hstep : Cpu.step (some (handle_ecall sdk)) t = .ok () t') :
      Runs sdk P s (event sdk t t' :: events) t'

/-- If the turn executes an ECALL, what it writes does not touch the word that
is reserved. -/
def Considerate (sdk : Sdk) (t t' : CommEcallHandler × Cpu M) : Prop :=
  ∀ inst cpu, (Cpu.fetch_instruction : Exec (CpuError CommEcallError) (Cpu M) U32) t.2 =
    .ok inst cpu → (decode inst).1 = .ecall → ∀ address, t.2.reservation_addr = some address →
      ∀ range ∈ written sdk t t', ¬ Machine.overlaps range.1 range.2 address

/-- What is asked of a turn after `events`, if it executes `SC.W`. -/
structure Proper (sdk : Sdk) (events : List Event) (t t' : CommEcallHandler × Cpu M) : Prop where
  /-- It succeeds only if the address is reserved. -/
  needs : ∀ address, event sdk t t' = .conditional address true → Reserved address events
  /-- There is no reservation after it. -/
  clears : ∀ address success, event sdk t t' = .conditional address success →
    t'.2.reservation_addr = none
  /-- If it fails, the memory is what it was after the instruction was fetched. -/
  silent : ∀ address, event sdk t t' = .conditional address false →
    ∃ inst cpu, (Cpu.fetch_instruction : Exec (CpuError CommEcallError) (Cpu M) U32) t.2 =
      .ok inst cpu ∧ t'.1 = t.1 ∧ ∀ s, t'.2.segment s = cpu.segment s

/-! ## What the processor remembers -/

variable {sdk : Sdk} {events : List Event} {s t t' : CommEcallHandler × Cpu M}
  {P : CommEcallHandler × Cpu M → CommEcallHandler × Cpu M → Prop}

/-- An address the processor takes to be reserved is reserved. -/
def Tracked (events : List Event) (t : CommEcallHandler × Cpu M) : Prop :=
  ∀ address, t.2.reservation_addr = some address → Reserved address events

/-- The event of an operation that is no ECALL agrees with what it leaves
reserved. -/
theorem Tracked.op {cpu : Cpu M} {op : Op} {n : U32}
    (h : ∀ address, cpu.reservation_addr = some address → Reserved address events)
    (hop : op ≠ .ecall) {address : U32} (hafter : cpu.reservation_after op = some address) :
    Reserved address (op_event sdk t t' cpu op n :: events) := by
  have hother {target : Option (U32 × ℕ)}
      (hafter : Cpu.undisturbed cpu.reservation_addr target = some address) :
      Reserved address (.write target.toList :: events) := by
    cases target with
    | some range =>
        obtain ⟨hsome, hclear⟩ := Option.filter_eq_some_iff.mp hafter
        refine ⟨fun range' hrange => ?_, h address hsome⟩
        rw [Option.toList_some, List.mem_singleton] at hrange
        rw [hrange]
        exact of_decide_eq_true hclear
    | none => exact ⟨fun range hrange => (List.not_mem_nil hrange).elim, h address hafter⟩
  cases op
  case lrW => exact Option.some.inj hafter
  case scW => cases hafter
  case ecall => exact absurd rfl hop
  all_goals exact hother hafter

/-- This stays so if an ECALL is considerate, and only then. -/
theorem Tracked.turn_iff (h : Tracked events t)
    (hstep : Cpu.step (some (handle_ecall sdk)) t = .ok () t') :
    Tracked (event sdk t t' :: events) t' ↔ Considerate sdk t t' := by
  obtain ⟨inst, cpu, hfetch, hturn⟩ := turn_inv hstep
  obtain ⟨seg, hcpu⟩ := Cpu.fetch_frame hfetch
  have hres : cpu.reservation_addr = t.2.reservation_addr := by
    rw [hcpu, Cpu.set_segment_reservation]
  have hevent : event sdk t t' = op_event sdk t t' cpu (decode inst).1 (decode inst).2 := by
    rw [event, hfetch]
  rw [hevent]
  rcases hturn with ⟨hop, s₁, hcode, rfl⟩ | ⟨hop, v, cpu₁, hrun, rfl⟩
  · have hsame : s₁.2.reservation_addr = t.2.reservation_addr :=
      (handle_code_reservation hcode).trans hres
    rw [hop]
    constructor
    · intro htracked inst' cpu' hfetch' _ address haddr
      exact (htracked address (hsame.trans haddr)).1
    · intro hc address haddr
      have haddr' : t.2.reservation_addr = some address := hsame.symm.trans haddr
      exact ⟨hc inst cpu hfetch hop address haddr', h address haddr'⟩
  · constructor
    · intro _ inst' cpu' hfetch' hop'
      obtain ⟨rfl, rfl⟩ := Outcome.ok.inj (hfetch.symm.trans hfetch')
      exact absurd hop' hop
    · intro _ address haddr
      refine Tracked.op (fun a ha => h a (hres.symm.trans ha)) hop ?_
      exact (Cpu.execute_op_reservation hrun).symm.trans haddr

/-- The run lemma: what the processor remembers is true in every state. -/
theorem Runs.tracked (hstart : s.2.reservation_addr = none)
    (h : Runs sdk (Considerate sdk) s events t) : Tracked events t := by
  induction h with
  | start =>
      intro address haddr
      rw [hstart] at haddr
      cases haddr
  | turn _ hc hstep ih => exact (ih.turn_iff hstep).mpr hc

theorem Tracked.proper (h : Tracked events t)
    (hstep : Cpu.step (some (handle_ecall sdk)) t = .ok () t') : Proper sdk events t t' := by
  obtain ⟨inst, cpu, hfetch, hturn⟩ := turn_inv hstep
  obtain ⟨seg, hcpu⟩ := Cpu.fetch_frame hfetch
  have hres : cpu.reservation_addr = t.2.reservation_addr := by
    rw [hcpu, Cpu.set_segment_reservation]
  have hevent : event sdk t t' = op_event sdk t t' cpu (decode inst).1 (decode inst).2 := by
    rw [event, hfetch]
  -- a turn with such an event executed `SC.W`, and what that did says everything
  have hcond {address : U32} {success : Bool}
      (he : event sdk t t' = .conditional address success) :
      t'.2.reservation_addr = none ∧
        (success = true → t.2.reservation_addr = some address) ∧
        (success = false → t'.1 = t.1 ∧ ∀ s, t'.2.segment s = cpu.segment s) := by
    rw [hevent] at he
    rcases hturn with ⟨hop, -⟩ | ⟨-, v, cpu₁, hrun, rfl⟩
    · rw [hop] at he
      cases he
    · cases hdec : decode inst with
      | mk op n =>
          rw [hdec] at he hrun
          cases op
          case scW rd rs1 rs2 =>
            obtain ⟨rfl, rfl⟩ := Event.conditional.inj he
            rw [Cpu.execute_op] at hrun
            obtain ⟨hnone, hwhich⟩ := Cpu.store_conditional_inv hrun
            have hsucceeds : succeeds cpu n rd rs1 rs2 = (cpu₁.reg rd == 0) := by
              rw [succeeds, hrun]
            dsimp only
            rw [hsucceeds, beq_iff_eq, beq_eq_false_iff_ne]
            refine ⟨hnone, fun h0 => ?_, fun h0 => ⟨rfl, fun s => ?_⟩⟩
            · rcases hwhich with ⟨-, hr⟩ | ⟨h1, -⟩
              · exact hres.symm.trans hr
              · exact absurd (h0.symm.trans h1) (by decide)
            · rcases hwhich with ⟨h1, -⟩ | ⟨-, hsegs⟩
              · exact absurd h1 h0
              · exact (Cpu.advance_segment cpu₁ v s).trans (hsegs s)
          all_goals cases he
  exact {
    needs := fun address he => h address ((hcond he).2.1 rfl)
    clears := fun address success he => (hcond he).1
    silent := fun address he => ⟨inst, cpu, hfetch, (hcond he).2.2 rfl⟩ }

/-- In a run from a state without a reservation, if no ECALL writes to a word
while it is reserved, then every `SC.W` is as it should be. -/
theorem sc_needs_reservation (hstart : s.2.reservation_addr = none)
    (hrun : Runs sdk (Considerate sdk) s events t)
    (hstep : Cpu.step (some (handle_ecall sdk)) t = .ok () t') : Proper sdk events t t' :=
  (hrun.tracked hstart).proper hstep

/-- `lr.w x12, (x10)`, `sc.w x13, x12, (x10)`. -/
def locking : CommEcallHandler × Cpu VecMemory :=
  let code : Page := array [0x2f, 0x26, 0x05, 0x10, 0xaf, 0x26, 0xc5, 0x18] 0 PAGE_SIZE
  (Unwritable.handler, (Cpu.new 0x1000 ⟨0x1000, 0x100, ⟨[code]⟩⟩ Unwritable.cpu.data_seg
    Unwritable.cpu.stack_seg).set_reg A0 0x2000)

/-- Nothing comes between the two instructions. -/
theorem sc_needs_reservation_locking : ∃ t t',
    Proper default [event default locking t] t t' ∧
      event default t t' = .conditional 0x2000 true := by
  obtain ⟨t, hfirst⟩ : ∃ t, Cpu.step (some (handle_ecall default)) locking = .ok () t := ⟨_, rfl⟩
  obtain ⟨t', hsecond, hevent⟩ : ∃ t', Cpu.step (some (handle_ecall default)) t = .ok () t' ∧
      event default t t' = .conditional 0x2000 true := by
    cases hfirst
    exact ⟨_, rfl, by decide +kernel⟩
  have hc : Considerate default locking t := by
    intro inst cpu hfetch hop
    have hinst : (Cpu.fetch_instruction : Exec (CpuError CommEcallError) (Cpu VecMemory) U32)
        locking.2 = .ok 0x1005262f locking.2 := rfl
    obtain ⟨rfl, -⟩ := Outcome.ok.inj (hinst.symm.trans hfetch)
    exact absurd hop (by decide)
  exact ⟨t, t', sc_needs_reservation rfl (.turn .start hc hfirst) hsecond, hevent⟩

/-! ## A word that is overwritten while it is reserved

The V-App reserves a word, asks for a message with that word as the buffer, and
then stores to it on condition that nobody else did. -/

namespace Overwritten

/-- `lui x10, 2`, `addi x11, x0, 4`, `addi x5, x0, 3`, `lr.w x12, (x10)`, `ecall`,
`lui x10, 2`, `sc.w x13, x12, (x10)`. -/
def page : Page :=
  array [0x37, 0x25, 0x00, 0x00, 0x93, 0x05, 0x40, 0x00, 0x93, 0x02, 0x30, 0x00, 0x2f, 0x26,
    0x05, 0x10, 0x73, 0x00, 0x00, 0x00, 0x37, 0x25, 0x00, 0x00, 0xaf, 0x26, 0xc5, 0x18] 0 PAGE_SIZE

def code_leaf : HashOutput 32 :=
  ofHex 0x56b9cd4911f9036e6476d78a121a94b139976086d46908d24068b91eaf9954c4

def data_leaf : HashOutput 32 :=
  ofHex 0x04bd11c311f0107c20d95e65d9a593ee5c92c7cb53507e10b680ece3de7add1c

def manifest : Manifest where
  manifest_version := 1
  vapp_name := "a"
  vapp_version := "1"
  entrypoint := 0
  code_start := 0
  code_end := 0x100
  code_merkle_root := code_leaf
  data_start := 0x2000
  data_end := 0x2100
  data_merkle_root := data_leaf
  stack_start := 0x3000
  stack_end := 0x3100
  stack_merkle_root := Vector.replicate 32 0
  n_storage_slots := 0

/-- SHA-256 on the manifest and on the two pages. -/
def sha256 (m : Bytes) : HashOutput 32 :=
  if m.getD 3 0 = 1 then
    ofHex 0x88367206bd0e2cbc4855a7513f86672c71b50be66b6f76b337cd5132c31f6688
  else if m.getD 14 0 = 0x37 then code_leaf
  else data_leaf

def device : Device where
  sha256 := sha256
  hmac_sha256 _ _ := none
  auth_key := Vector.replicate 32 0

/-- Each page is asked for once. The message is four bytes long. -/
def world : Surroundings where
  code_replies := { replies := [.ok (page.toList ++ List.replicate 16 0)] }
  data_replies := { replies := [.ok (List.replicate (PAGE_SIZE + 16) 0)] }
  stack_replies := { replies := [] }
  replies := { replies := [.ok [0, 0, 0, 4, 1, 2, 3, 4]] }
  aes_key := { encrypt_block := fun _ => none }
  n_code_cache_pages := 4
  n_data_cache_pages := 4
  n_stack_cache_pages := 4
  storage := [some {
    vapp_hash := manifest.get_vapp_hash sha256
    storage_slots := Vector.replicate 4 (Vector.replicate STORAGE_SLOT_SIZE 0) }]
  last_event := none
  events := []

end Overwritten

/-- The first `n` turns of a run, where they all return. -/
def follow (sdk : Sdk) : ℕ → CommEcallHandler × Cpu M →
    Option (List Event × (CommEcallHandler × Cpu M))
  | 0, s => some ([], s)
  | n + 1, s => do
      let (events, t) ← follow sdk n s
      match Cpu.step (some (handle_ecall sdk)) t with
      | .ok _ t' => some (event sdk t t' :: events, t')
      | _ => none

/-- Is the turn after that a success of an `SC.W` whose address is not reserved? -/
def improper (sdk : Sdk) (n : ℕ) (s : CommEcallHandler × Cpu M) : Bool :=
  match follow sdk n s with
  | some (events, t) =>
      match Cpu.step (some (handle_ecall sdk)) t with
      | .ok _ t' =>
          match event sdk t t' with
          | .conditional address true => ¬ Reserved address events
          | _ => false
      | _ => false
  | none => false

theorem Runs.of_follow : ∀ {n : ℕ} {events : List Event} {t : CommEcallHandler × Cpu M},
    follow sdk n s = some (events, t) → Runs sdk (fun _ _ => True) s events t := by
  intro n
  induction n with
  | zero =>
      intro events t h
      cases h
      exact .start
  | succ n ih =>
      intro events t h
      simp only [follow, Option.bind_eq_bind, Option.bind_eq_some_iff] at h
      obtain ⟨⟨events₁, t₁⟩, hn, h⟩ := h
      split at h
      · next t₂ hstep =>
          cases h
          exact .turn (ih hn) trivial hstep
      · cases h

theorem improper_run {n : ℕ} (h : improper sdk n s = true) :
    ∃ events t t', Runs sdk (fun _ _ => True) s events t ∧
      Cpu.step (some (handle_ecall sdk)) t = .ok () t' ∧ ¬ Proper sdk events t t' := by
  unfold improper at h
  split at h
  · next events t hn =>
      split at h
      · next t' hstep =>
          split at h
          · next address hevent =>
              exact ⟨events, t, t', .of_follow hn, hstep, fun hp =>
                of_decide_eq_true h (hp.needs address hevent)⟩
          · cases h
      · cases h
  · cases h

/-- A V-App that is started on the device can do it. -/
theorem sc_stores_over_message :
    ¬ ∀ (dev : Device) (sdk : Sdk) (world : Surroundings) (manifest : Manifest)
      (s t t' : CommEcallHandler × Cpu VappMemory) (events : List Event),
      letI := OutsourcedMemory.pagedMemory (E := BoxedStrategy) dev
      handler_start_vapp.start dev world manifest = some s →
        Runs sdk (fun _ _ => True) s events t →
          Cpu.step (some (handle_ecall sdk)) t = .ok () t' → Proper sdk events t t' := by
  intro h
  let := OutsourcedMemory.pagedMemory (E := BoxedStrategy) Overwritten.device
  have hsome : ((handler_start_vapp.start Overwritten.device Overwritten.world
      Overwritten.manifest).any (improper SelfWriting.sdk 6)) = true := by decide +kernel
  obtain ⟨s, hstart, himproper⟩ := Option.any_eq_true _ _ |>.mp hsome
  obtain ⟨events, t, t', hrun, hstep, hnot⟩ := improper_run himproper
  exact hnot (h Overwritten.device SelfWriting.sdk Overwritten.world Overwritten.manifest s t t'
    events hstart hrun hstep)

end CommEcallHandler

end Vanadium
