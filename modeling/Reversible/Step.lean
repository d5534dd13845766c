import Reversible.Fault

namespace Reversible

structure Step where
  domain : Option String := none
  op : String
  target : Option Name := none
  targets : Option (List Name) := none
  result : Option Name := none
  steps : Option (List Step) := none

namespace Step

mutual

def decEq : (s t : Step) → Decidable (s = t)
  | ⟨d, o, g, gs, r, none⟩, ⟨d', o', g', gs', r', none⟩ =>
    if h : d = d' ∧ o = o' ∧ g = g' ∧ gs = gs' ∧ r = r' then isTrue (by simp [h]) else isFalse (by simpa using h)
  | ⟨_, _, _, _, _, none⟩, ⟨_, _, _, _, _, some _⟩ => isFalse (by simp)
  | ⟨_, _, _, _, _, some _⟩, ⟨_, _, _, _, _, none⟩ => isFalse (by simp)
  | ⟨d, o, g, gs, r, some ss⟩, ⟨d', o', g', gs', r', some ts⟩ =>
    match decEqAll ss ts with
    | isTrue hs =>
      if h : d = d' ∧ o = o' ∧ g = g' ∧ gs = gs' ∧ r = r' then isTrue (by simp [h, hs])
      else isFalse fun e => h (by cases e; simp)
    | isFalse hs => isFalse fun e => hs (by cases e; rfl)
termination_by structural s => s

def decEqAll : (ss ts : List Step) → Decidable (ss = ts)
  | [], [] => isTrue rfl
  | [], _ :: _ => isFalse (by simp)
  | _ :: _, [] => isFalse (by simp)
  | s :: ss, t :: ts =>
    match decEq s t, decEqAll ss ts with
    | isTrue h, isTrue hs => isTrue (by rw [h, hs])
    | isFalse h, _ => isFalse fun e => h (by cases e; rfl)
    | _, isFalse h => isFalse fun e => h (by cases e; rfl)
termination_by structural ss => ss

end

instance : DecidableEq Step := decEq

def ofOp (op : String) : Step := { op }

def inDomain (s : Step) (d : String) : Step := { s with domain := some d }

def withTarget (s : Step) (n : Name) : Step := { s with target := some n }

def withTargets (s : Step) (ns : List Name) : Step := { s with targets := some ns }

def withResult (s : Step) (n : Name) : Step := { s with result := some n }

def withSteps (s : Step) (ss : List Step) : Step := { s with steps := some ss }

def requireTarget (s : Step) : Except Fault Name :=
  match s.target with
  | some n => .ok n
  | none => .error (.missingOperand "target" s.op)

/-- The first two targets; further ones are ignored. -/
def requireTargetPair (s : Step) : Except Fault (Name × Name) :=
  match s.targets with
  | some (a :: b :: _) => .ok (a, b)
  | _ => .error (.missingOperand "targets" s.op)

def requireResult (s : Step) : Except Fault Name :=
  match s.result with
  | some n => .ok n
  | none => .error (.missingOperand "result" s.op)

def substeps (s : Step) : List Step :=
  s.steps.getD []

theorem induction {P : Step → Prop} (sequence : ∀ s, (∀ u ∈ s.substeps, P u) → P s) (s : Step) : P s := by
  have hnil : ∀ u ∈ ([] : List Step), P u := by
    intro u hu
    exact absurd hu List.not_mem_nil
  have hcons : ∀ (s : Step) (ss : List Step), P s → (∀ u ∈ ss, P u) → ∀ u ∈ s :: ss, P u := by
    intro s ss hs hss
    exact List.forall_mem_cons.mpr ⟨hs, hss⟩
  -- The recursor has a motive for the steps inside, which may be absent, and one for a list of steps.
  exact @Step.rec P (fun ss => ∀ u ∈ ss.getD [], P u) (fun ss => ∀ u ∈ ss, P u)
    (fun d op t ts r ss hss => sequence ⟨d, op, t, ts, r, ss⟩ hss) hnil (fun _ hss => hss) hnil hcons s

end Step

end Reversible
