import CachePolicies.Mockingjay.Feedback

/-! The policy together with the replacement data of the cache's lines. The cache keeps one
`MockingjayReplData` per line, made by `instantiateEntry`, passes it to every call, and the
policy writes it through the shared pointer. A run is any sequence of the calls of the
replacement-policy interface, naming lines by index: `invalidate`, both overloads of `touch`
and `reset`, and `getVictim` over a list of candidate lines.

The policy's own members follow `Mockingjay.run` over the calls that reach it. For a line:
`touch` and `reset` with a packet stamp it with the access counter, and the next `touch` with a
packet records as its reuse distance the number of packet accesses since the stamp, unless the
stamp was `0` (the counter starts at `0`, so the first access of a run is stamped `0`): then
`lastAccessCounter > 0` fails and the distance stays as it was. After a `reset` of either
overload, the line's insert tick is that call's tick and its access count is the number of
`touch` calls of either overload since, modulo `2^32`. -/

namespace CachePolicies.ReplacementPolicy

/-- A call of the replacement-policy interface, naming lines by index. -/
inductive LineCall
  | invalidate (line : Nat)
  | touch (line : Nat) (pc : Option (BitVec 64)) (currentTick : BitVec 64)
  | touchConst (line : Nat) (currentTick : BitVec 64)
  | reset (line : Nat) (pc : Option (BitVec 64)) (currentTick : BitVec 64)
  | resetConst (line : Nat) (currentTick : BitVec 64)
  | getVictim (candidates : List Nat) (currentTick : BitVec 64)

namespace LineCall

def advance : LineCall → Nat
  | .touch _ _ _ | .reset _ _ _ => 1
  | _ => 0

def accesses : List LineCall → Nat
  | [] => 0
  | call :: rest => call.advance + accesses rest

def stamps (line : Nat) : LineCall → Bool
  | .touch l _ _ | .reset l _ _ => l == line
  | _ => false

/-- The call leaves the stamp and the reuse distance of `line`: it is not a `touch` or `reset`
with a packet, nor an `invalidate`, of `line`. -/
def keepsStamp (line : Nat) : LineCall → Bool
  | .touch l _ _ | .reset l _ _ | .invalidate l => l != line
  | _ => true

def resetsAt (line : Nat) : LineCall → Option (BitVec 64)
  | .reset l _ currentTick | .resetConst l currentTick => if l = line then some currentTick else none
  | _ => none

/-- The call leaves the insertion of `line`: it is not a `reset` of either overload, nor an
`invalidate`, of `line`. -/
def keepsInsertion (line : Nat) : LineCall → Bool
  | .reset l _ _ | .resetConst l _ | .invalidate l => l != line
  | _ => true

def touchOf (line : Nat) : LineCall → Nat
  | .touch l _ _ | .touchConst l _ => if l = line then 1 else 0
  | _ => 0

def touchesOf (line : Nat) : List LineCall → Nat
  | [] => 0
  | call :: rest => call.touchOf line + touchesOf line rest

/-- The call the policy receives, with the line's data as it stands; `invalidate` and the
`const` overloads do not change the policy. -/
def policyCall (lines : Nat → MockingjayReplData) : LineCall → Option PolicyCall
  | .touch line pc currentTick => some (.touch (lines line) pc currentTick)
  | .reset line pc currentTick => some (.reset (lines line) pc currentTick)
  | .getVictim candidates currentTick => some (.getVictim (candidates.map lines) currentTick)
  | _ => none

/-- The PC a call writes to `line`: a packet's PC by `touch` or `reset`, `0` by a `reset`
without one, by the `const` `reset` and by `invalidate`; `none` when the call leaves it. -/
def pcWrite (line : Nat) : LineCall → Option (BitVec 64)
  | .touch l pc _ => if l = line then pc else none
  | .reset l pc _ => if l = line then some (pc.getD 0) else none
  | .resetConst l _ | .invalidate l => if l = line then some 0 else none
  | _ => none

def lastPcWrite (line : Nat) : List LineCall → Option (BitVec 64)
  | [] => none
  | call :: rest => (lastPcWrite line rest).or (call.pcWrite line)

theorem stamps_advance {line : Nat} {call : LineCall} (stamped : call.stamps line = true) :
    call.advance = 1 := by
  cases call <;> simp only [stamps, Bool.false_eq_true] at stamped <;> rfl

end LineCall

namespace Mockingjay

section Fields

variable (m : Mockingjay) (data : MockingjayReplData) (pc : Option (BitVec 64))
  (currentTick : BitVec 64)

@[simp] theorem touch_globalAccessCounter :
    (m.touch data pc currentTick).1.globalAccessCounter = m.globalAccessCounter + 1 := by
  rw [touch_fst]; cases pc <;> simp only [checkEvictedReuse_globalAccessCounter]

@[simp] theorem reset_globalAccessCounter :
    (m.reset data pc currentTick).1.globalAccessCounter = m.globalAccessCounter + 1 := by
  rw [reset_fst]; cases pc <;> simp only [checkEvictedReuse_globalAccessCounter]

@[simp] theorem touch_lastAccessCounter :
    (m.touch data pc currentTick).2.lastAccessCounter = m.globalAccessCounter := by
  cases pc <;> rfl

theorem touch_reuseDistance :
    (m.touch data pc currentTick).2.reuseDistance =
      if 0 < data.lastAccessCounter then m.globalAccessCounter - data.lastAccessCounter
      else data.reuseDistance := by
  unfold touch
  dsimp only
  split_ifs <;> cases pc <;> rfl

@[simp] theorem touch_insertTick :
    (m.touch data pc currentTick).2.insertTick = data.insertTick := by
  unfold touch
  dsimp only
  split_ifs <;> cases pc <;> rfl

@[simp] theorem touch_accessCount :
    (m.touch data pc currentTick).2.accessCount = data.accessCount + 1 := by
  unfold touch
  dsimp only
  split_ifs <;> cases pc <;> rfl

@[simp] theorem touch_pc : (m.touch data pc currentTick).2.pc = pc.getD data.pc := by
  unfold touch
  dsimp only
  split_ifs <;> cases pc <;> rfl

@[simp] theorem reset_pc : (m.reset data pc currentTick).2.pc = pc.getD 0 := by
  cases pc <;> rfl

@[simp] theorem reset_lastAccessCounter :
    (m.reset data pc currentTick).2.lastAccessCounter = m.globalAccessCounter := by
  cases pc <;> rfl

@[simp] theorem reset_reuseDistance : (m.reset data pc currentTick).2.reuseDistance = 0 := by
  cases pc <;> rfl

@[simp] theorem reset_insertTick : (m.reset data pc currentTick).2.insertTick = currentTick := by
  cases pc <;> rfl

@[simp] theorem reset_accessCount : (m.reset data pc currentTick).2.accessCount = 0 := by
  cases pc <;> rfl

end Fields

theorem run_append (m : Mockingjay) (calls more : List PolicyCall) :
    m.run (calls ++ more) = (m.run calls).run more := by
  induction calls generalizing m with
  | nil => rfl
  | cons call rest ih => exact ih _

end Mockingjay

/-- The policy and the replacement data of every line. -/
structure PolicyState where
  policy : Mockingjay
  lines : Nat → MockingjayReplData

namespace PolicyState

/-- The state after one call. `getVictim` writes every candidate's recomputed priority, as its
first pass does; with no candidate its assertion fails, and the state is left as it was. -/
noncomputable def apply (s : PolicyState) : LineCall → PolicyState
  | .invalidate line =>
    { s with lines := Function.update s.lines line (Mockingjay.invalidate (s.lines line)) }
  | .touch line pc currentTick =>
    let result := s.policy.touch (s.lines line) pc currentTick
    ⟨result.1, Function.update s.lines line result.2⟩
  | .touchConst line currentTick =>
    { s with lines := Function.update s.lines line (s.policy.touchConst (s.lines line) currentTick) }
  | .reset line pc currentTick =>
    let result := s.policy.reset (s.lines line) pc currentTick
    ⟨result.1, Function.update s.lines line result.2⟩
  | .resetConst line currentTick =>
    { s with lines := Function.update s.lines line (s.policy.resetConst (s.lines line) currentTick) }
  | .getVictim candidates currentTick =>
    match s.policy.getVictim (candidates.map s.lines) currentTick with
    | none => s
    | some (_, policy, _) =>
      ⟨policy, fun line =>
        if line ∈ candidates then s.policy.rescore currentTick (s.lines line) else s.lines line⟩

noncomputable def run (s : PolicyState) : List LineCall → PolicyState
  | [] => s
  | call :: rest => (s.apply call).run rest

noncomputable def policyCalls (s : PolicyState) : List LineCall → List PolicyCall
  | [] => []
  | call :: rest => (call.policyCall s.lines).toList ++ (s.apply call).policyCalls rest

@[simp] theorem run_nil (s : PolicyState) : s.run [] = s := rfl

@[simp] theorem run_cons (s : PolicyState) (call : LineCall) (rest : List LineCall) :
    s.run (call :: rest) = (s.apply call).run rest := rfl

theorem run_append (s : PolicyState) (calls more : List LineCall) :
    s.run (calls ++ more) = (s.run calls).run more := by
  induction calls generalizing s with
  | nil => rfl
  | cons call rest ih => exact ih _

theorem apply_getVictim_lines (s : PolicyState) (candidates : List Nat) (currentTick : BitVec 64)
    (line : Nat) :
    (s.apply (.getVictim candidates currentTick)).lines line =
      if line ∈ candidates then s.policy.rescore currentTick (s.lines line) else s.lines line := by
  cases candidates with
  | nil => simp only [List.not_mem_nil, if_false]; rfl
  | cons first rest =>
    obtain ⟨_, _, -, result, -⟩ := Mockingjay.getVictim_spec s.policy
      ((first :: rest).map s.lines) currentTick (List.cons_ne_nil _ _)
    rw [apply, result]

theorem apply_policy (s : PolicyState) (call : LineCall) :
    (s.apply call).policy = s.policy.run (call.policyCall s.lines).toList := by
  cases call with
  | getVictim candidates currentTick =>
    cases candidates with
    | nil => rfl
    | cons first rest =>
      obtain ⟨_, _, -, result, -⟩ := Mockingjay.getVictim_spec s.policy
        ((first :: rest).map s.lines) currentTick (List.cons_ne_nil _ _)
      simp only [apply, LineCall.policyCall, Option.toList, Mockingjay.run_cons, Mockingjay.run_nil,
        Mockingjay.apply, result, Option.map_some', Option.getD_some]
  | _ => rfl

theorem run_policy (s : PolicyState) (calls : List LineCall) :
    (s.run calls).policy = s.policy.run (s.policyCalls calls) := by
  induction calls generalizing s with
  | nil => rfl
  | cons call rest ih => rw [run_cons, ih, policyCalls, Mockingjay.run_append, ← apply_policy]

theorem apply_globalAccessCounter (s : PolicyState) (call : LineCall) :
    (s.apply call).policy.globalAccessCounter =
      s.policy.globalAccessCounter + BitVec.ofNat 64 call.advance := by
  rw [apply_policy]
  cases call <;>
    simp only [LineCall.policyCall, Option.toList, Mockingjay.run_cons, Mockingjay.run_nil,
      Mockingjay.apply_globalAccessCounter, PolicyCall.advance, LineCall.advance, BitVec.add_zero]

theorem run_globalAccessCounter (s : PolicyState) (calls : List LineCall) :
    (s.run calls).policy.globalAccessCounter =
      s.policy.globalAccessCounter + BitVec.ofNat 64 (LineCall.accesses calls) := by
  induction calls generalizing s with
  | nil => simp only [run_nil, LineCall.accesses, BitVec.add_zero]
  | cons call rest ih =>
    rw [run_cons, ih, apply_globalAccessCounter, LineCall.accesses, BitVec.ofNat_add,
      BitVec.add_assoc]

section Stamp

variable (s : PolicyState) {line : Nat}

theorem apply_touch_self (pc : Option (BitVec 64)) (currentTick : BitVec 64) :
    (s.apply (.touch line pc currentTick)).lines line =
      (s.policy.touch (s.lines line) pc currentTick).2 := by
  simp only [apply, Function.update_same]

theorem apply_stamps {first : LineCall} (stamped : first.stamps line = true) :
    ((s.apply first).lines line).lastAccessCounter = s.policy.globalAccessCounter := by
  cases first <;> simp only [LineCall.stamps, Bool.false_eq_true, beq_iff_eq] at stamped <;>
    subst stamped <;>
    simp only [apply, Function.update_same, Mockingjay.touch_lastAccessCounter,
      Mockingjay.reset_lastAccessCounter]

theorem apply_keepsStamp {call : LineCall} (kept : call.keepsStamp line = true) :
    ((s.apply call).lines line).lastAccessCounter = (s.lines line).lastAccessCounter ∧
      ((s.apply call).lines line).reuseDistance = (s.lines line).reuseDistance := by
  cases call with
  | getVictim candidates currentTick =>
    rw [apply_getVictim_lines]
    split_ifs <;> exact ⟨rfl, rfl⟩
  | touchConst l currentTick | resetConst l currentTick =>
    simp only [apply, Function.update_apply]
    split_ifs with same
    · subst same; exact ⟨rfl, rfl⟩
    · exact ⟨rfl, rfl⟩
  | invalidate l | touch l _ _ | reset l _ _ =>
    simp only [LineCall.keepsStamp, bne_iff_ne, ne_eq] at kept
    simp only [apply, Function.update_noteq (Ne.symm kept), and_self]

theorem run_keepsStamp {calls : List LineCall}
    (quiet : ∀ call ∈ calls, call.keepsStamp line = true) :
    ((s.run calls).lines line).lastAccessCounter = (s.lines line).lastAccessCounter ∧
      ((s.run calls).lines line).reuseDistance = (s.lines line).reuseDistance := by
  induction calls generalizing s with
  | nil => exact ⟨rfl, rfl⟩
  | cons call rest ih =>
    obtain ⟨stamp, distance⟩ := apply_keepsStamp s (quiet call (List.mem_cons_self _ _))
    obtain ⟨stamp', distance'⟩ := ih (s.apply call) fun other member =>
      quiet other (List.mem_cons_of_mem _ member)
    exact ⟨stamp'.trans stamp, distance'.trans distance⟩

end Stamp

/-- After a `touch` or `reset` with a packet of a line, and calls that neither access it with a
packet nor invalidate it, a `touch` with a packet records as the line's reuse distance the number
of packet accesses since the first call, that call included. When the first call found the
counter at `0`, its stamp fails `lastAccessCounter > 0`, and the distance stays as the first call
left it. -/
theorem reuseDistance_run (s : PolicyState) {line : Nat} {first : LineCall}
    (stamped : first.stamps line = true) (between : List LineCall)
    (quiet : ∀ call ∈ between, call.keepsStamp line = true) (pc : Option (BitVec 64))
    (currentTick : BitVec 64) :
    ((s.run (first :: between ++ [.touch line pc currentTick])).lines line).reuseDistance =
      if s.policy.globalAccessCounter = 0 then ((s.apply first).lines line).reuseDistance
      else BitVec.ofNat 64 (1 + LineCall.accesses between) := by
  obtain ⟨stamp, distance⟩ := run_keepsStamp (s.apply first) quiet
  have counter := run_globalAccessCounter (s.apply first) between
  rw [apply_globalAccessCounter, (LineCall.stamps_advance stamped)] at counter
  rw [List.cons_append, run_cons, run_append, run_cons, run_nil, apply_touch_self,
    Mockingjay.touch_reuseDistance, stamp, apply_stamps s stamped, distance, counter]
  by_cases zero : s.policy.globalAccessCounter = 0
  · rw [if_pos zero, if_neg (by rw [zero]; exact lt_irrefl 0)]
  · have positive : 0 < s.policy.globalAccessCounter := by
      rw [BitVec.lt_def]
      simp [BitVec.toNat_eq] at zero ⊢
      omega
    rw [if_pos positive, if_neg zero, BitVec.ofNat_add, show BitVec.ofNat 64 1 = 1 from rfl]
    abel

theorem reuseDistance_run_two_accesses :
    (LineCall.reset 0 none 0).stamps 0 = true ∧
      (∀ call ∈ [LineCall.touch 1 none 0], call.keepsStamp 0 = true) ∧
      ((PolicyState.run ⟨{ Mockingjay.initial 0 false with globalAccessCounter := 5 }, fun _ => {}⟩
        (.reset 0 none 0 :: [LineCall.touch 1 none 0] ++ [.touch 0 none 0])).lines 0).reuseDistance =
        2 :=
  ⟨rfl, by decide, (@reuseDistance_run _ 0 (.reset 0 none 0) rfl [LineCall.touch 1 none 0]
    (by decide) none 0).trans rfl⟩

section Insertion

variable (s : PolicyState) {line : Nat}

theorem apply_resetsAt {first : LineCall} {insertTick : BitVec 64}
    (inserted : first.resetsAt line = some insertTick) :
    ((s.apply first).lines line).insertTick = insertTick ∧
      ((s.apply first).lines line).accessCount = 0 := by
  cases first <;> simp only [LineCall.resetsAt, reduceCtorEq, Option.ite_none_right_eq_some,
    Option.some.injEq] at inserted
  · obtain ⟨rfl, rfl⟩ := inserted
    simp only [apply, Function.update_same, Mockingjay.reset_insertTick,
      Mockingjay.reset_accessCount, and_self]
  · obtain ⟨rfl, rfl⟩ := inserted
    simp only [apply, Function.update_same]
    exact ⟨rfl, rfl⟩

theorem apply_keepsInsertion {call : LineCall} (kept : call.keepsInsertion line = true) :
    ((s.apply call).lines line).insertTick = (s.lines line).insertTick ∧
      ((s.apply call).lines line).accessCount =
        (s.lines line).accessCount + BitVec.ofNat 32 (call.touchOf line) := by
  cases call with
  | getVictim candidates currentTick =>
    simp only [apply_getVictim_lines, LineCall.touchOf, BitVec.add_zero]
    split_ifs <;> exact ⟨rfl, rfl⟩
  | touch l pc currentTick =>
    by_cases same : l = line
    · subst same
      simp only [apply, Function.update_same, LineCall.touchOf, if_true,
        Mockingjay.touch_insertTick, Mockingjay.touch_accessCount]
      exact ⟨trivial, rfl⟩
    · simp only [apply, Function.update_noteq (Ne.symm same), LineCall.touchOf, same, if_false,
        BitVec.add_zero, and_self]
  | touchConst l currentTick =>
    by_cases same : l = line
    · subst same
      simp only [apply, Function.update_same, LineCall.touchOf, if_true]
      exact ⟨rfl, rfl⟩
    · simp only [apply, Function.update_noteq (Ne.symm same), LineCall.touchOf, same, if_false,
        BitVec.add_zero, and_self]
  | invalidate l | reset l _ _ | resetConst l _ =>
    simp only [LineCall.keepsInsertion, bne_iff_ne, ne_eq] at kept
    simp only [apply, Function.update_noteq (Ne.symm kept), LineCall.touchOf, BitVec.add_zero,
      and_self]

theorem run_keepsInsertion {calls : List LineCall}
    (kept : ∀ call ∈ calls, call.keepsInsertion line = true) :
    ((s.run calls).lines line).insertTick = (s.lines line).insertTick ∧
      ((s.run calls).lines line).accessCount =
        (s.lines line).accessCount + BitVec.ofNat 32 (LineCall.touchesOf line calls) := by
  induction calls generalizing s with
  | nil => exact ⟨rfl, (BitVec.add_zero _).symm⟩
  | cons call rest ih =>
    obtain ⟨tick, count⟩ := apply_keepsInsertion s (kept call (List.mem_cons_self _ _))
    obtain ⟨tick', count'⟩ := ih (s.apply call) fun other member =>
      kept other (List.mem_cons_of_mem _ member)
    refine ⟨tick'.trans tick, ?_⟩
    rw [run_cons, count', count, LineCall.touchesOf, BitVec.ofNat_add, BitVec.add_assoc]

end Insertion

/-- After a `reset` of either overload of a line, and calls that neither reset nor invalidate
it, the line's insert tick is the tick of that `reset`, and its access count is the number of
`touch` calls of either overload of the line since, modulo `2^32`. -/
theorem insertion_run (s : PolicyState) {line : Nat} {first : LineCall} {insertTick : BitVec 64}
    (inserted : first.resetsAt line = some insertTick) (between : List LineCall)
    (kept : ∀ call ∈ between, call.keepsInsertion line = true) :
    (((s.apply first).run between).lines line).insertTick = insertTick ∧
      (((s.apply first).run between).lines line).accessCount =
        BitVec.ofNat 32 (LineCall.touchesOf line between) := by
  obtain ⟨tick, count⟩ := run_keepsInsertion (s.apply first) kept
  obtain ⟨reset, cleared⟩ := apply_resetsAt s inserted
  rw [tick, reset, count, cleared, zero_add]
  exact ⟨rfl, rfl⟩

theorem insertion_run_two_touches :
    (LineCall.resetConst 0 7).resetsAt 0 = some 7 ∧
      (∀ call ∈ [LineCall.touch 0 none 9, .touchConst 0 9, .getVictim [0] 9],
        call.keepsInsertion 0 = true) ∧
      (((PolicyState.apply ⟨Mockingjay.initial 0 false, fun _ => {}⟩ (.resetConst 0 7)).run
          [LineCall.touch 0 none 9, .touchConst 0 9, .getVictim [0] 9]).lines 0).insertTick = 7 ∧
      (((PolicyState.apply ⟨Mockingjay.initial 0 false, fun _ => {}⟩ (.resetConst 0 7)).run
          [LineCall.touch 0 none 9, .touchConst 0 9, .getVictim [0] 9]).lines 0).accessCount = 2 :=
  ⟨rfl, by decide, @insertion_run _ 0 (.resetConst 0 7) 7 rfl _ (by decide)⟩

section Pc

variable (s : PolicyState) {line : Nat}

theorem apply_pc (call : LineCall) :
    ((s.apply call).lines line).pc = (call.pcWrite line).getD (s.lines line).pc := by
  cases call with
  | getVictim candidates currentTick =>
    rw [apply_getVictim_lines]
    split_ifs <;> rfl
  | touch l pc currentTick | touchConst l currentTick | reset l pc currentTick
  | resetConst l currentTick | invalidate l =>
    by_cases same : l = line
    · subst same
      simp only [apply, Function.update_same, LineCall.pcWrite, if_true, Mockingjay.touch_pc,
        Mockingjay.reset_pc, Option.getD_some, Option.getD_none]
      all_goals rfl
    · simp only [apply, Function.update_noteq (Ne.symm same), LineCall.pcWrite, same, if_false,
        Option.getD_none]

/-- The PC of a line after a run is the one the last call that writes it wrote: the PC of a
packet of a `touch` or `reset`, or `0` from a `reset` without a PC, a `const` `reset` or an
`invalidate`; a `touch` without a PC keeps it. -/
theorem pc_run (calls : List LineCall) :
    ((s.run calls).lines line).pc = (LineCall.lastPcWrite line calls).getD (s.lines line).pc := by
  induction calls generalizing s with
  | nil => rfl
  | cons call rest ih =>
    rw [run_cons, ih, apply_pc, LineCall.lastPcWrite]
    cases LineCall.lastPcWrite line rest <;> rfl

end Pc

end PolicyState

end CachePolicies.ReplacementPolicy
