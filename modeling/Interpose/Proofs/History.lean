import Interpose.Proofs.Interleaving
import Mathlib.Data.List.Induction

/-!
# Histories of entries

Which sequences of deeds an entry can have. At first targets are taken. Then the loader is asked for
a module at most once, and one outcome is published. From there on the outcome is told once, whoever
asks is answered with its function, and targets are refused.

`Phase.Next` says what can come next, and `History` what can come in all. Everything that histories
are good for is read off the phase that they lead to: how often the loader was asked and something
was published or told (`History.counts`), what was published, told and answered
(`History.published_iff`, `History.told`, `History.answered`), and which target an outcome is about
(`History.lastTaken_eq`).

Nothing here knows of threads. That the deeds of threads make up histories is a matter of locks, and
shown where those are.
-/

namespace Interpose

variable {φ : Type}

/-! ### Phases -/

/-- How far the history of an entry has come. -/
inductive Phase (φ : Type)
  /-- Targets are taken, the last one being this one. -/
  | waiting (target : Target)
  /-- The loader was asked for the module of a target. -/
  | opened (target : Target)
  /-- The outcome for a target was published, and told or not told yet. -/
  | settled (target : Target) (o : BindResult φ) (told : Bool)

namespace Phase

/-- The target that a phase is about. -/
def target : Phase φ → Target
  | waiting target | opened target | settled target _ _ => target

/-- An outcome was published. -/
def Settled (p : Phase φ) : Prop := ∃ target o told, p = .settled target o told

/-- The deeds that are possible in a phase of an entry with a key, and the phases after them. -/
inductive Next (key : String) : Phase φ → Deed φ → Phase φ → Prop
  | taken (target target' : Target) : Next key (.waiting target) (.taken target') (.waiting target')
  | opened {target : Target} {file : String} (h : target.file = .ok file) :
      Next key (.waiting target) (.opened file) (.opened target)
  | unusable {target : Target} {reason : BindError} (h : target.file = .error reason) :
      Next key (.waiting target) (.published (.error reason))
        (.settled target (.error reason) false)
  | published (target : Target) (o : BindResult φ) :
      Next key (.opened target) (.published o) (.settled target o false)
  | told (target : Target) (o : BindResult φ) :
      Next key (.settled target o false) (.told (o.event key target)) (.settled target o true)
  | answered (target : Target) (o : BindResult φ) (told : Bool) :
      Next key (.settled target o told) (.answered o.function) (.settled target o told)
  | refused (target : Target) (o : BindResult φ) (told : Bool) (target' : Target) :
      Next key (.settled target o told) (.refused target') (.settled target o told)

/-- A settled entry stays settled, for the same target and with the same outcome. -/
theorem Next.of_settled {key : String} {target : Target} {o : BindResult φ} {told : Bool}
    {deed : Deed φ} {p : Phase φ} (h : Next key (.settled target o told) deed p) :
    ∃ told', p = .settled target o told' := by
  cases h <;> exact ⟨_, rfl⟩

end Phase

/-- What can have been done to an entry with a key and a first target, and the phase that this leads
to. -/
inductive History (key : String) (first : Target) : List (Deed φ) → Phase φ → Prop
  | nil : History key first [] (.waiting first)
  | snoc {deeds : List (Deed φ)} {deed : Deed φ} {p p' : Phase φ} (h : History key first deeds p)
      (hn : p.Next key deed p') : History key first (deeds ++ [deed]) p'

/-! ### Kinds of deeds -/

namespace Deed

/-- Whether the loader was asked to open a file. -/
def isOpened : Deed φ → Bool
  | opened _ => true
  | _ => false

@[simp] theorem isOpened_opened (file : String) : (opened file : Deed φ).isOpened = true := rfl

/-- Whether an outcome was published. -/
def isPublished : Deed φ → Bool
  | published _ => true
  | _ => false

/-- Whether an event was told. -/
def isTold : Deed φ → Bool
  | told _ => true
  | _ => false

end Deed

/-- The last target taken, after a first one. -/
def lastTaken (first : Target) (deeds : List (Deed φ)) : Target :=
  deeds.foldl (fun target deed ↦ if let .taken target' := deed then target' else target) first

namespace History

variable {key : String} {first : Target} {deeds : List (Deed φ)} {p : Phase φ}

/-- The last deed is possible after the others. -/
theorem of_concat {deed : Deed φ} (h : History key first (deeds ++ [deed]) p) :
    ∃ q, History key first deeds q ∧ q.Next key deed p := by
  generalize hds : deeds ++ [deed] = ds at h
  cases h with
  | nil => simp at hds
  | snoc h hn =>
    obtain ⟨rfl, hd⟩ := List.append_inj' hds rfl
    obtain rfl := List.singleton_inj.mp hd
    exact ⟨_, h, hn⟩

/-! ### What a history tells -/

/-- How often the loader was asked, and something was published or told, up to a phase. -/
def Counts (deeds : List (Deed φ)) : Phase φ → Prop
  | .waiting _ =>
    deeds.countP Deed.isOpened = 0 ∧ deeds.countP Deed.isPublished = 0 ∧
      deeds.countP Deed.isTold = 0
  | .opened _ =>
    deeds.countP Deed.isOpened = 1 ∧ deeds.countP Deed.isPublished = 0 ∧
      deeds.countP Deed.isTold = 0
  | .settled _ _ told =>
    deeds.countP Deed.isOpened ≤ 1 ∧ deeds.countP Deed.isPublished = 1 ∧
      deeds.countP Deed.isTold = if told then 1 else 0

theorem counts (h : History key first deeds p) : Counts deeds p := by
  induction h with
  | nil => exact ⟨rfl, rfl, rfl⟩
  | snoc h hn ih =>
    -- Each deed adds one to at most one of the counts.
    cases hn
    all_goals
      simp only [Counts, List.countP_append, List.countP_singleton, Deed.isOpened,
        Deed.isPublished, Deed.isTold, if_true, Bool.false_eq_true, if_false] at ih ⊢
      omega

/-- **The loader is asked at most once**, and an outcome is published and told at most once. -/
theorem countP_le_one (h : History key first deeds p) :
    deeds.countP Deed.isOpened ≤ 1 ∧ deeds.countP Deed.isPublished ≤ 1 ∧
      deeds.countP Deed.isTold ≤ 1 := by
  have hcounts := h.counts
  cases p with
  | waiting target =>
    obtain ⟨hopened, hpublished, htold⟩ := hcounts
    omega
  | opened target =>
    obtain ⟨hopened, hpublished, htold⟩ := hcounts
    omega
  | settled target o told =>
    obtain ⟨hopened, hpublished, htold⟩ := hcounts
    cases told <;> simp only [if_true, Bool.false_eq_true, if_false] at htold <;> omega

theorem settled_iff_countP (h : History key first deeds p) :
    p.Settled ↔ deeds.countP Deed.isPublished = 1 := by
  have hcounts := h.counts
  cases p with
  | waiting target => simp [Phase.Settled, hcounts.2.1]
  | opened target => simp [Phase.Settled, hcounts.2.1]
  | settled target o told => simp [Phase.Settled, hcounts.2.1]

/-- **What was published** is the outcome of the phase. -/
theorem published_iff (h : History key first deeds p) {o : BindResult φ} :
    .published o ∈ deeds ↔ ∃ target told, p = .settled target o told := by
  induction h with
  | nil => simp
  | snoc h hn ih => cases hn <;> simp [ih, eq_comm]

/-- **What was answered** is the function of the outcome. -/
theorem answered (h : History key first deeds p) {function : Option φ}
    (hmem : .answered function ∈ deeds) :
    ∃ target o told, p = .settled target o told ∧ function = o.function := by
  induction h with
  | nil => cases hmem
  | snoc h hn ih =>
    rcases List.mem_append.mp hmem with hold | hnew
    · obtain ⟨target, o, told, rfl, hf⟩ := ih hold
      obtain ⟨told', rfl⟩ := hn.of_settled
      exact ⟨target, o, told', rfl, hf⟩
    · obtain rfl := List.mem_singleton.mp hnew
      cases hn with
      | answered target o told => exact ⟨target, o, told, rfl, rfl⟩

/-- **What was told** is the outcome, for the target that it is about. -/
theorem told (h : History key first deeds p) {event : Event} (hmem : .told event ∈ deeds) :
    ∃ target o, p = .settled target o true ∧ event = o.event key target := by
  induction h with
  | nil => cases hmem
  | snoc h hn ih =>
    rcases List.mem_append.mp hmem with hold | hnew
    · obtain ⟨target, o, rfl, he⟩ := ih hold
      cases hn <;> exact ⟨target, o, rfl, he⟩
    · obtain rfl := List.mem_singleton.mp hnew
      cases hn with
      | told target o => exact ⟨target, o, rfl, rfl⟩

/-- **The target** of the phase is the last one taken. -/
theorem lastTaken_eq (h : History key first deeds p) : lastTaken first deeds = p.target := by
  induction h with
  | nil => rfl
  | snoc h hn ih =>
    rw [lastTaken, List.foldl_append]
    cases hn <;> first | rfl | exact ih

/-- The loader was asked for the file of that target. -/
theorem file_eq (h : History key first deeds p) {file : String} (hmem : .opened file ∈ deeds) :
    p.target.file = .ok file := by
  induction h with
  | nil => cases hmem
  | snoc h hn ih =>
    rcases List.mem_append.mp hmem with hold | hnew
    · have hfile := ih hold
      cases hn with
      | taken =>
        -- While targets are taken the loader has not been asked.
        have hpos : 0 < _ := List.countP_pos_iff.mpr ⟨_, hold, Deed.isOpened_opened file⟩
        have hnone : _ = 0 := h.counts.1
        omega
      | _ => exact hfile
    · obtain rfl := List.mem_singleton.mp hnew
      cases hn with
      | opened hfile => exact hfile

/-! ### The order of deeds -/

/-- What was done up to some moment is a history too. -/
theorem exists_prefix {a b : List (Deed φ)} (h : History key first (a ++ b) p) :
    ∃ q, History key first a q := by
  induction b using List.reverseRecOn generalizing p with
  | nil => exact ⟨p, by simpa using h⟩
  | append_singleton b deed ih =>
    rw [← List.append_assoc] at h
    obtain ⟨q, hq, -⟩ := h.of_concat
    exact ih hq

/-- Once an outcome was published no target is taken. -/
theorem not_taken_after {a b : List (Deed φ)} (h : History key first (a ++ b) p)
    {o : BindResult φ} (ho : .published o ∈ a) (target : Target) : .taken target ∉ b := by
  induction b using List.reverseRecOn generalizing p with
  | nil => exact List.not_mem_nil
  | append_singleton b deed ih =>
    rw [← List.append_assoc] at h
    obtain ⟨q, hq, hn⟩ := h.of_concat
    obtain ⟨target', told, rfl⟩ := hq.published_iff.mp (List.mem_append_left b ho)
    -- The last deed is one that a settled entry allows.
    intro hmem
    rcases List.mem_append.mp hmem with hold | hnew
    · exact ih hq hold
    · obtain rfl := List.mem_singleton.mp hnew
      cases hn

/-- What is possible only once an outcome was published. -/
theorem published_before {a b : List (Deed φ)} {deed : Deed φ}
    (h : History key first (a ++ deed :: b) p)
    (hd : (∃ event, deed = .told event) ∨ (∃ function, deed = .answered function) ∨
      ∃ target, deed = .refused target) : ∃ o, .published o ∈ a := by
  rw [List.append_cons] at h
  obtain ⟨q, hq⟩ := h.exists_prefix
  obtain ⟨q', hq', hn⟩ := hq.of_concat
  rcases hd with ⟨event, rfl⟩ | ⟨function, rfl⟩ | ⟨target, rfl⟩
  · cases hn with
    | told target o => exact ⟨o, hq'.published_iff.mpr ⟨target, false, rfl⟩⟩
  · cases hn with
    | answered target o told => exact ⟨o, hq'.published_iff.mpr ⟨target, told, rfl⟩⟩
  · cases hn with
    | refused target o told => exact ⟨o, hq'.published_iff.mpr ⟨target, told, rfl⟩⟩

end History

end Interpose
