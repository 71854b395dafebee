import CachePolicies.Mockingjay.Lines

/-! Two fields of a line's replacement data are written and never read. `lastTouchTick` is
stamped by `touch` and `reset` and read by nothing: `computePriority` reads the PC, the insert
tick, the access count and the reuse distance, and `touch` reads the stamp and the access count.
The stored `priority` is read only by the selection pass of `getVictim`, after its first pass has
overwritten it with the recomputed one.

So every call gives the same policy, and lines that agree on every other field, from two states
that differ only in those two fields, and `getVictim` picks the same victim from them. Over a
run this says that the largest double `invalidate` stores as the priority, like every other stored
priority, never decides an eviction. -/

namespace CachePolicies.ReplacementPolicy

def MockingjayReplData.untouched (data : MockingjayReplData) : MockingjayReplData :=
  { data with lastTouchTick := 0 }

/-- The replacement data as the calls read it: `lastTouchTick` and the stored `priority` set to
zero. -/
def MockingjayReplData.readPart (data : MockingjayReplData) : MockingjayReplData :=
  { data.untouched with priority := 0 }

namespace Mockingjay

variable (m : Mockingjay) (currentTick : BitVec 64)

theorem victimLoop_congr {candidates others : List MockingjayReplData}
    (same : candidates.map MockingjayReplData.priority = others.map MockingjayReplData.priority)
    (i : Nat) (best : Nat × ℝ) : victimLoop candidates i best = victimLoop others i best := by
  induction candidates generalizing others i best with
  | nil =>
    cases others with
    | nil => rfl
    | cons _ _ => cases same
  | cons data rest ih =>
    cases others with
    | nil => cases same
    | cons other more =>
      simp only [List.map_cons, List.cons.injEq] at same
      rw [victimLoop, victimLoop, same.1, ih same.2]

theorem rescore_readPart (candidates : List MockingjayReplData) :
    (candidates.map MockingjayReplData.readPart).map (m.rescore currentTick) =
      (candidates.map (m.rescore currentTick)).map MockingjayReplData.untouched := by
  simp only [List.map_map]; rfl

theorem getVictim_readPart (candidates : List MockingjayReplData) :
    (m.getVictim (candidates.map MockingjayReplData.readPart) currentTick).map
        (fun result => (result.1, result.2.1)) =
      (m.getVictim candidates currentTick).map (fun result => (result.1, result.2.1)) := by
  unfold getVictim
  rw [rescore_readPart]
  generalize candidates.map (m.rescore currentTick) = rescored
  cases rescored with
  | nil => rfl
  | cons first rest =>
    have ranked := @victimLoop_congr ((first :: rest).map MockingjayReplData.untouched)
      (first :: rest) (List.map_map _ _ _) 0 (0, first.untouched.priority)
    rw [List.map_cons] at ranked ⊢
    dsimp only
    rw [ranked, ← List.map_cons, List.getD_map]
    rfl

theorem apply_getVictim_readPart (candidates : List MockingjayReplData) :
    m.apply (.getVictim (candidates.map MockingjayReplData.readPart) currentTick) =
      m.apply (.getVictim candidates currentTick) := by
  have chosen := congrArg (Option.map Prod.snd) (getVictim_readPart m currentTick candidates)
  simp only [Option.map_map] at chosen
  exact congrArg (Option.getD · m) chosen

theorem touch_readPart (data : MockingjayReplData) (pc : Option (BitVec 64)) :
    (m.touch data.readPart pc currentTick).2.readPart = (m.touch data pc currentTick).2.readPart := by
  unfold touch
  dsimp only [MockingjayReplData.readPart, MockingjayReplData.untouched]
  split_ifs <;> cases pc <;> rfl

theorem reset_readPart (data : MockingjayReplData) (pc : Option (BitVec 64)) :
    (m.reset data.readPart pc currentTick).2.readPart = (m.reset data pc currentTick).2.readPart := by
  cases pc <;> rfl

end Mockingjay

namespace PolicyState

def readPart (s : PolicyState) : PolicyState := ⟨s.policy, fun line => (s.lines line).readPart⟩

theorem readPart_eq {s s' : PolicyState} (policy : s.policy = s'.policy)
    (lines : ∀ line, (s.lines line).readPart = (s'.lines line).readPart) :
    s.readPart = s'.readPart := by
  rw [readPart, readPart, policy]
  exact congrArg (PolicyState.mk _) (funext lines)

theorem readPart_update (lines : Nat → MockingjayReplData) (line : Nat)
    {data data' : MockingjayReplData} (same : data.readPart = data'.readPart) :
    (fun l => (Function.update (fun l => (lines l).readPart) line data l).readPart) =
      fun l => (Function.update lines line data' l).readPart := by
  funext l
  rw [Function.apply_update (fun _ => MockingjayReplData.readPart) lines]
  by_cases here : l = line
  · subst here; simp only [Function.update_same, same]
  · simp only [Function.update_noteq here]; rfl

theorem apply_readPart (s : PolicyState) (call : LineCall) :
    (s.readPart.apply call).readPart = (s.apply call).readPart := by
  cases call with
  | invalidate line | touchConst line _ | resetConst line _ =>
    exact congrArg (PolicyState.mk _) (readPart_update s.lines line rfl)
  | touch line pc currentTick =>
    simp only [apply, readPart, Mockingjay.touch_fst]
    rw [readPart_update s.lines line (Mockingjay.touch_readPart _ _ _ _)]
  | reset line pc currentTick =>
    simp only [apply, readPart, Mockingjay.reset_fst]
    rw [readPart_update s.lines line (Mockingjay.reset_readPart _ _ _ _)]
  | getVictim candidates currentTick =>
    refine readPart_eq ?_ fun line => ?_
    · have erased : candidates.map s.readPart.lines =
          (candidates.map s.lines).map MockingjayReplData.readPart :=
        (List.map_map MockingjayReplData.readPart s.lines candidates).symm
      rw [apply_policy, apply_policy]
      simp only [LineCall.policyCall, Option.toList, Mockingjay.run_cons, Mockingjay.run_nil, erased,
        Mockingjay.apply_getVictim_readPart]
      rfl
    · rw [apply_getVictim_lines, apply_getVictim_lines]
      split_ifs <;> rfl

theorem run_readPart (s : PolicyState) (calls : List LineCall) :
    (s.readPart.run calls).readPart = (s.run calls).readPart := by
  induction calls generalizing s with
  | nil => rfl
  | cons call rest ih => rw [run_cons, run_cons, ← ih (s.apply call), ← apply_readPart, ih]

theorem victim_readPart (s : PolicyState) (candidates : List Nat) (currentTick : BitVec 64) :
    (s.readPart.policy.getVictim (candidates.map s.readPart.lines) currentTick).map Prod.fst =
      (s.policy.getVictim (candidates.map s.lines) currentTick).map Prod.fst := by
  have chosen := congrArg (Option.map Prod.fst)
    (Mockingjay.getVictim_readPart s.policy currentTick (candidates.map s.lines))
  simpa only [Option.map_map, List.map_map] using chosen

/-- From two states that differ only in the lines' `lastTouchTick` and stored `priority`, every
run ends with the same policy and with lines that again differ only there, and `getVictim` then
evicts the same candidate. -/
theorem run_ignores_unread (s s' : PolicyState) (samePolicy : s.policy = s'.policy)
    (sameLines : ∀ line, (s.lines line).readPart = (s'.lines line).readPart)
    (calls : List LineCall) :
    (s.run calls).policy = (s'.run calls).policy ∧
    (∀ line, ((s.run calls).lines line).readPart = ((s'.run calls).lines line).readPart) ∧
    ∀ (candidates : List Nat) (currentTick : BitVec 64),
      ((s.run calls).policy.getVictim (candidates.map (s.run calls).lines) currentTick).map
          Prod.fst =
        ((s'.run calls).policy.getVictim (candidates.map (s'.run calls).lines) currentTick).map
          Prod.fst := by
  have agree : (s.run calls).readPart = (s'.run calls).readPart := by
    rw [← run_readPart, readPart_eq samePolicy sameLines, run_readPart]
  obtain ⟨policy, lines⟩ := PolicyState.mk.inj agree
  refine ⟨policy, congrFun lines, fun candidates currentTick => ?_⟩
  rw [← victim_readPart, agree, victim_readPart]

theorem run_ignores_unread_invalidated :
    let s : PolicyState := ⟨Mockingjay.initial 0 true, fun _ => {}⟩
    let s' : PolicyState := ⟨Mockingjay.initial 0 true, fun _ => Mockingjay.invalidate {}⟩
    let calls := [LineCall.touch 0 (some 0x400) 1, .getVictim [0, 1] 2]
    s.policy = s'.policy ∧ (∀ line, (s.lines line).readPart = (s'.lines line).readPart) ∧
    (s.run calls).policy = (s'.run calls).policy ∧
    (∀ line, ((s.run calls).lines line).readPart = ((s'.run calls).lines line).readPart) ∧
    ∀ (candidates : List Nat) (currentTick : BitVec 64),
      ((s.run calls).policy.getVictim (candidates.map (s.run calls).lines) currentTick).map
          Prod.fst =
        ((s'.run calls).policy.getVictim (candidates.map (s'.run calls).lines) currentTick).map
          Prod.fst :=
  ⟨rfl, fun _ => rfl, run_ignores_unread ⟨Mockingjay.initial 0 true, fun _ => {}⟩
    ⟨Mockingjay.initial 0 true, fun _ => Mockingjay.invalidate {}⟩ rfl (fun _ => rfl) _⟩

end PolicyState

end CachePolicies.ReplacementPolicy
