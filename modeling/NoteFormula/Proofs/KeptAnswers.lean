import NoteFormula.Arguments.Session
import NoteFormula.Proofs.Answers

/-! # Kept answers

Front matter is written to while texts are evaluated against it. A path is looked up from the entry that its first
segment names, and a write leaves every other entry as it is. So an answer may be kept until a write reaches the first
segment of one of its keys. Values are trees: what is written shares nothing with the front matter around it.
-/
namespace NoteFormula

namespace Value

variable {entries : Entries} {key : Value} {name : String}

/-- Writes the entry of a key of any kind: an old entry keeps its place, a new one goes to the end. -/
def putEntry (entries : Entries) (key value : Value) : Entries :=
  match entries with
  | [] => [(key, value)]
  | e :: rest => if e.1.same true key then (e.1, value) :: rest else e :: putEntry rest key value

def dropEntry (entries : Entries) (key : Value) : Entries := entries.eraseP fun e => e.1.same true key

theorem hasKey_iff {e : Value × Value} : hasKey name e = true ↔ e.1 = text name := by
  obtain ⟨key, value⟩ := e
  cases key <;> simp [hasKey]

theorem text_same (h : (text name).same true key = true) : key = text name := by
  cases key <;> simp_all [same, plainNumber?]

theorem hasKey_of_same {e : Value × Value} (h : e.1.same true key = true) (hne : key ≠ text name) :
    hasKey name e = false := by
  apply Bool.eq_false_iff.mpr
  intro hkey
  rw [hasKey_iff.mp hkey] at h
  exact hne (text_same h)

theorem field?_cons (e : Value × Value) (entries : Entries) (name : String) :
    field? (e :: entries) name = if hasKey name e then some e.2 else field? entries name := by
  unfold field?
  rw [List.find?_cons]
  cases hasKey name e <;> rfl

theorem setEntry_eq (entries : Entries) (name : String) (value : Value) :
    setEntry entries name value = putEntry entries (text name) value := by
  induction entries with
  | nil => rfl
  | cons e entries ih =>
    have htest : hasKey name e = e.1.same true (text name) := by
      apply Bool.eq_iff_iff.mpr
      rw [hasKey_iff]
      constructor
      · intro h
        simp [h, same]
      · exact Keys.same_text
    rw [setEntry, putEntry, htest, ih]

theorem field?_putEntry (h : key ≠ text name) (value : Value) :
    field? (putEntry entries key value) name = field? entries name := by
  induction entries with
  | nil =>
    have hnew : hasKey name (key, value) = false := Bool.eq_false_iff.mpr (mt hasKey_iff.mp h)
    rw [putEntry, field?_cons, hnew]
    rfl
  | cons e entries ih =>
    rw [putEntry]
    split
    · rename_i hsame
      have hold := hasKey_of_same hsame h
      have hnew : hasKey name (e.1, value) = false := hasKey_of_same (e := (e.1, value)) hsame h
      rw [field?_cons, field?_cons, hold, hnew]
      rfl
    · rw [field?_cons, field?_cons, ih]

theorem field?_setEntry {target : String} (h : name ≠ target) (value : Value) :
    field? (setEntry entries target value) name = field? entries name := by
  rw [setEntry_eq]
  apply field?_putEntry
  intro hkey
  exact h (text.inj hkey).symm

theorem field?_dropEntry (h : key ≠ text name) : field? (dropEntry entries key) name = field? entries name := by
  induction entries with
  | nil => rfl
  | cons e entries ih =>
    unfold dropEntry at ih ⊢
    rw [List.eraseP_cons, field?_cons]
    cases hsame : e.1.same true key with
    | true =>
      rw [hasKey_of_same hsame h]
      rfl
    | false =>
      change field? (e :: entries.eraseP _) name = _
      rw [field?_cons, ih]

end Value

def root (path : String) : String := String.ofList ((segments path).headD [])

theorem segments_cons (path : String) : ∃ first rest, segments path = first :: rest := by
  unfold segments
  generalize path.toList = cs
  cases cs with
  | nil => exact ⟨_, _, rfl⟩
  | cons c cs =>
    unfold Text.splitAt
    split
    · exact ⟨_, _, rfl⟩
    · split <;> exact ⟨_, _, rfl⟩

/-- A lookup sees one entry of the front matter. -/
theorem resolve_congr {entries others : Value.Entries} {path : String}
    (h : Value.field? entries (root path) = Value.field? others (root path)) :
    (Value.map entries).resolve path = (Value.map others).resolve path := by
  obtain ⟨first, rest, hsegments⟩ := segments_cons path
  unfold root at h
  unfold Value.resolve
  rw [hsegments] at h ⊢
  rw [List.foldl_cons, List.foldl_cons]
  congr 1
  exact congrArg (·.getD .absent) h

theorem ArgumentTexts.names_eq {context : Context} {limit : Int} {args : Arguments} {r : ArgumentTexts}
    (h : ofArguments context limit args = .ok r) : r.texts.map (·.1) = args.map (·.1) := by
  rcases Int.lt_or_le limit 1 with hl | hl
  · rw [ofArguments_low hl] at h
    cases h
  · rw [ofArguments_eq hl] at h
    exact (foldlM_ok h).1

namespace Step

variable {entries : Value.Entries} {step : Step} {name target : String}

def names : Step → List String
  | assign name _ _ => [name]
  | batch args _ => args.map (·.1)

theorem field?_setEntries {texts : Arguments} (h : name ∉ texts.map (·.1)) :
    Value.field? (texts.foldl (fun es (n, s) => Value.setEntry es n (.text s)) entries) name =
      Value.field? entries name := by
  induction texts generalizing entries with
  | nil => rfl
  | cons text texts ih =>
    rw [List.map_cons, List.mem_cons, not_or] at h
    rw [List.foldl_cons, ih h.2]
    exact Value.field?_setEntry h.1 _

theorem field?_write {answer : StepAnswer} (ha : step.answer entries = .ok answer) (h : name ∉ step.names) :
    Value.field? (step.write entries answer) name = Value.field? entries name := by
  cases step with
  | assign target source limit =>
    cases hanswer : Answer.ofText (Context.ofEntries entries) limit source with
    | error fault =>
      rw [Step.answer, hanswer] at ha
      cases ha
    | ok answer =>
      rw [Step.answer, hanswer] at ha
      cases ha
      exact Value.field?_setEntry (fun htarget => h (List.mem_singleton.mpr htarget)) _
  | batch args limit =>
    cases htexts : ArgumentTexts.ofArguments (Context.ofEntries entries) limit args with
    | error fault =>
      rw [Step.answer, htexts] at ha
      cases ha
    | ok texts =>
      rw [Step.answer, htexts] at ha
      cases ha
      rw [names, ← ArgumentTexts.names_eq htexts] at h
      exact field?_setEntries h

theorem field?_next (h : name ∉ step.names) :
    Value.field? (step.next entries).2 name = Value.field? entries name := by
  unfold next
  cases ha : step.answer entries with
  | error fault => rfl
  | ok answer => exact field?_write ha h

end Step

inductive Deed where
  | evaluate (source : String) (limit : Int)
  | put (key value : Value)
  | drop (key : Value)
  /-- Evaluate, and write what comes out. -/
  | step (step : Step)

namespace Deed

variable {entries : Value.Entries} {deed : Deed} {name : String}

def touched : Deed → List Value
  | evaluate .. => []
  | put key _ | drop key => [key]
  | step s => s.names.map .text

def perform (entries : Value.Entries) : Deed → Value.Entries
  | evaluate .. => entries
  | put key value => Value.putEntry entries key value
  | drop key => Value.dropEntry entries key
  | step s => (s.next entries).2

def performAll (entries : Value.Entries) (deeds : List Deed) : Value.Entries := deeds.foldl perform entries

theorem performAll_append (entries : Value.Entries) (deeds more : List Deed) :
    performAll entries (deeds ++ more) = performAll (performAll entries deeds) more :=
  List.foldl_append

/-- A deed leaves every entry that it does not touch as it is. -/
theorem field?_perform (h : .text name ∉ deed.touched) :
    Value.field? (deed.perform entries) name = Value.field? entries name := by
  cases deed with
  | evaluate => rfl
  | put key value =>
    apply Value.field?_putEntry
    intro hkey
    exact h (List.mem_singleton.mpr hkey.symm)
  | drop key =>
    apply Value.field?_dropEntry
    intro hkey
    exact h (List.mem_singleton.mpr hkey.symm)
  | step s => exact Step.field?_next fun hname => h (List.mem_map_of_mem hname)

theorem field?_performAll {deeds : List Deed} (h : ∀ deed ∈ deeds, .text name ∉ deed.touched) :
    Value.field? (performAll entries deeds) name = Value.field? entries name := by
  induction deeds generalizing entries with
  | nil => rfl
  | cons deed deeds ih =>
    obtain ⟨hhead, htail⟩ := List.forall_mem_cons.mp h
    change Value.field? (performAll (deed.perform entries) deeds) name = _
    rw [ih htail, field?_perform hhead]

end Deed

def Answer.Untouched (source : String) (deeds : List Deed) : Prop :=
  ∀ deed ∈ deeds, ∀ path, (reportedKeys source).Has (.text path) → .text (root path) ∉ deed.touched

theorem Answer.Untouched.agreesOn {source : String} {deeds : List Deed} (h : Untouched source deeds)
    (entries : Value.Entries) : (Context.ofEntries entries).AgreesOn
      (Context.ofEntries (Deed.performAll entries deeds)) (reportedKeys source) := by
  intro p hp
  obtain ⟨path, rfl⟩ := reportedKeys_text hp
  have hfield : Value.field? (Deed.performAll entries deeds) (root path) = Value.field? entries (root path) :=
    Deed.field?_performAll fun deed hd => h deed hd path hp
  exact congrArg Except.ok (resolve_congr hfield.symm)

/-- At two times of a run a text has the same answer, with its value, the text of it and its keys, or the same fault, if
nothing that is done between them touches the first segment of one of its keys. -/
theorem answer_kept_until_root_touched (entries : Value.Entries) (deeds : List Deed) (source : String) (limit : Int)
    (first last : Nat) (horder : first ≤ last) (h : Answer.Untouched source ((deeds.take last).drop first)) :
    Answer.ofText (Context.ofEntries (Deed.performAll entries (deeds.take first))) limit source =
      Answer.ofText (Context.ofEntries (Deed.performAll entries (deeds.take last))) limit source := by
  have hsplit : deeds.take last = deeds.take first ++ (deeds.take last).drop first := by
    conv_lhs => rw [← List.take_append_drop first (deeds.take last), List.take_take, Nat.min_eq_left horder]
  rw [hsplit, Deed.performAll_append]
  exact Answer.ofText_congr (h.agreesOn _)

/-- An entry whose name only looks like the path is not the one that is read, and an answer may be written beside it. -/
theorem answer_kept_beside_dotted_name :
    let entries : Value.Entries := [(.text "a", .list [.int 1]), (.text "a.0", .int 2)]
    let deeds := [Deed.evaluate "fm.b" 8, .put (.text "a.0") (.int 3), .step (.assign "b" "fm.a.0" 8),
      .drop (.text "a.0"), .put (.int 0) .absent, .drop (.text "a")]
    1 ≤ 5 ∧ Answer.Untouched "fm.a.0" ((deeds.take 5).drop 1) ∧
    Answer.ofText (Context.ofEntries (Deed.performAll entries (deeds.take 1))) 8 "fm.a.0" =
      Answer.ofText (Context.ofEntries (Deed.performAll entries (deeds.take 5))) 8 "fm.a.0" := by
  intro entries deeds
  have htokens : Token.tokenize "fm.a.0" = .ok [Token.ofWord "fm.a.0".toList, Token.eof] := by cbv
  have hkeys : Answer.reportedKeys "fm.a.0" = ⟨[.text "a.0"], []⟩ := by
    unfold Answer.reportedKeys
    rw [htokens]
    rfl
  have huntouched : Answer.Untouched "fm.a.0" ((deeds.take 5).drop 1) := by
    intro deed hd path hp
    have hroot : root path = "a" := by
      rw [hkeys] at hp
      rcases hp with hp | hp
      · rw [Value.text.inj (List.mem_singleton.mp hp)]
        rfl
      · cases hp
    rw [hroot]
    simp only [deeds, List.take_succ_cons, List.take_zero, List.drop_succ_cons, List.drop_zero, List.mem_cons,
      List.not_mem_nil, or_false] at hd
    rcases hd with rfl | rfl | rfl | rfl <;> simp [Deed.touched, Step.names]
  exact ⟨by decide, huntouched, answer_kept_until_root_touched entries deeds "fm.a.0" 8 1 5 (by decide) huntouched⟩

end NoteFormula
