import Mathlib.Data.List.Duplicate
import Mathlib.Data.List.Pairwise
import GoldenCircuit.Proofs.Json.Document
import GoldenCircuit.Proofs.Request

/-! Requests that are given in part. An object gives some of the fields, in any order and among
members of any other names; what it does not give has its default, for each field of a request and
of its plan. A field that is given twice is refused. -/
namespace GoldenCircuit.Request

open Json (Value CodeUnit Spelling)

/-! ### Records -/

/-- The members whose names are among these. -/
def membersNamed (names : List String) (members : List (String × Value)) :
    List (String × Value) :=
  members.filter (·.1 ∈ names)

/-- The value is an object. Among the fields with these names it gives these members, each once and
in any order; it may have members of any other names, wherever they stand. -/
def Gives (names : List String) (given : List (String × Value)) (value : Value) : Prop :=
  ∃ members, value.members? = some members ∧ (membersNamed names members).Perm given

/-- The value is an object that gives one of the fields with these names more than once. -/
def Repeats (names : List String) (value : Value) : Prop :=
  ∃ members, value.members? = some members ∧
    ∃ name ∈ names, List.Duplicate name (members.map Prod.fst)

section Records

variable {Record : Type} {fields : List (Field Record)} {met : List String}
  {members given : List (String × Value)} {record final : Record} {value : Value}

/-- Reads a member into a record, if it is one of the fields. -/
def readMember (fields : List (Field Record)) (record : Record) (member : String × Value) :
    Option Record :=
  match fields.find? (·.name == member.1) with
  | some field => field.read member.2 record
  | none => some record

/-- The names of fields that the members give. -/
def givenNames (fields : List (Field Record)) (members : List (String × Value)) : List String :=
  (membersNamed (fields.map Field.name) members).map Prod.fst

theorem find?_eq_none_iff {name : String} :
    fields.find? (·.name == name) = none ↔ name ∉ fields.map Field.name := by
  simp

theorem givenNames_cons (member : String × Value) (members : List (String × Value)) :
    givenNames fields (member :: members) =
      if member.1 ∈ fields.map Field.name then member.1 :: givenNames fields members
      else givenNames fields members := by
  rw [givenNames, membersNamed, List.filter_cons]
  split
  next given => rw [if_pos (by simpa using given)]; rfl
  next other => rw [if_neg (by simpa using other)]; rfl

/-- What reading the members of an object does: no field is given twice, and each member in turn is
read. -/
theorem readMembers_eq_some_iff {raw : List (List CodeUnit × Value)}
    (named : (Value.object raw).members? = some members) :
    readMembers fields met raw record = some final ↔
      (∀ name ∈ givenNames fields members, name ∉ met) ∧ (givenNames fields members).Nodup ∧
        members.foldlM (readMember fields) record = some final := by
  induction raw generalizing members met record with
  | nil =>
    cases named
    simp [readMembers, givenNames, membersNamed]
  | cons member raw ih =>
    obtain ⟨chars, others, text, rest, rfl⟩ := Value.members?_cons_eq_some_iff.mp named
    rw [List.foldlM_cons, readMember, givenNames_cons]
    simp only [readMembers, text, Option.bind_eq_bind, Option.bind_some]
    cases found : fields.find? (·.name == String.ofList chars) with
    | none =>
      rw [if_neg (find?_eq_none_iff.mp found)]
      exact ih rest
    | some field =>
      have given : String.ofList chars ∈ fields.map Field.name := by
        by_contra other
        simp [find?_eq_none_iff.mpr other] at found
      rw [if_pos given, List.nodup_cons, List.forall_mem_cons]
      by_cases again : String.ofList chars ∈ met
      · simp [again]
      cases next : field.read member.2 record with
      | none => simp [next]
      | some between =>
        -- The name is met now, so that the names behind it have to differ from it as well.
        have apart : (∀ name ∈ givenNames fields others, name ∉ String.ofList chars :: met) ↔
            String.ofList chars ∉ givenNames fields others ∧
              ∀ name ∈ givenNames fields others, name ∉ met := by
          simp only [List.mem_cons, not_or, forall_and]
          refine and_congr_left' ⟨fun other among => other _ among rfl, ?_⟩
          rintro other name among rfl
          exact other among
        simp only [again, next, if_false, not_false_eq_true, true_and, Option.bind_some, ih rest,
          apart]
        tauto

theorem exists_object_of_members? (named : value.members? = some members) :
    ∃ raw, value = .object raw := by
  cases value with
  | object raw => exact ⟨raw, rfl⟩
  | _ => cases named

/-- A field that is given twice is refused, wherever the two stand and whatever they give. -/
theorem readRecord_of_repeats (fields : List (Field Record))
    (repeats : Repeats (fields.map Field.name) value) (record : Record) :
    readRecord fields record value = none := by
  obtain ⟨members, named, name, field, twice⟩ := repeats
  obtain ⟨raw, rfl⟩ := exists_object_of_members? named
  have given : givenNames fields members =
      (members.map Prod.fst).filter (· ∈ fields.map Field.name) := by
    rw [List.filter_map]
    rfl
  have again : List.Duplicate name (givenNames fields members) := by
    rw [List.duplicate_iff_two_le_count] at twice ⊢
    rwa [given, List.count_filter (by simpa using field)]
  refine Option.eq_none_iff_forall_ne_some.mpr fun final read => ?_
  obtain ⟨_, once, _⟩ := (readMembers_eq_some_iff named).mp read
  exact again.not_nodup once

/-- One member that cannot be read is enough to refuse the object. -/
theorem readRecord_of_refused (named : value.members? = some members) {member : String × Value}
    (among : member ∈ members) (refused : ∀ record, readMember fields record member = none)
    (record : Record) : readRecord fields record value = none := by
  obtain ⟨raw, rfl⟩ := exists_object_of_members? named
  refine Option.eq_none_iff_forall_ne_some.mpr fun final read => ?_
  obtain ⟨_, _, folded⟩ := (readMembers_eq_some_iff named).mp read
  obtain ⟨before, after, rfl⟩ := List.append_of_mem among
  simp [List.foldlM_append, refused] at folded

/-- It does not matter which of two fields is read first. -/
def Field.Commutes (one other : Field Record) : Prop :=
  ∀ value value' record, (one.read value record).bind (other.read value') =
    (other.read value' record).bind (one.read value)

instance : Std.Symm (@Field.Commutes Record) :=
  ⟨fun _ _ commutes value value' record => (commutes value' value record).symm⟩

theorem readMember_comm (commute : fields.Pairwise Field.Commutes) {one other : String × Value}
    (apart : one.1 ≠ other.1) (record : Record) :
    (readMember fields record one).bind (readMember fields · other) =
      (readMember fields record other).bind (readMember fields · one) := by
  simp only [readMember]
  cases found : fields.find? (·.name == one.1) with
  | none => simp
  | some field =>
    cases found' : fields.find? (·.name == other.1) with
    | none => simp
    | some field' =>
      have differ : field ≠ field' := by
        rintro rfl
        have name := List.find?_some found
        have name' := List.find?_some found'
        rw [beq_iff_eq] at name name'
        exact apart (name.symm.trans name')
      exact commute.forall (List.mem_of_find?_eq_some found) (List.mem_of_find?_eq_some found')
        differ _ _ _

theorem foldlM_readMember_perm (commute : fields.Pairwise Field.Commutes)
    (perm : members.Perm given) (once : (members.map Prod.fst).Nodup) (record : Record) :
    members.foldlM (readMember fields) record = given.foldlM (readMember fields) record := by
  rw [List.foldlM_eq_foldl, List.foldlM_eq_foldl]
  refine perm.foldl_eq' (fun one one_mem other other_mem read => ?_) _
  by_cases same : one.1 = other.1
  · rw [List.inj_on_of_nodup_map once one_mem other_mem same]
  · cases read with
    | none => rfl
    | some record => exact readMember_comm commute same record

/-- An object is read as the fields that it gives. -/
theorem readRecord_of_gives (commute : fields.Pairwise Field.Commutes)
    (gives : Gives (fields.map Field.name) given value) (once : (given.map Prod.fst).Nodup)
    (record : Record) :
    readRecord fields record value = given.foldlM (readMember fields) record := by
  obtain ⟨members, named, perm⟩ := gives
  obtain ⟨raw, rfl⟩ := exists_object_of_members? named
  have names := perm.map Prod.fst
  have once := names.nodup_iff.mpr once
  -- Members of other names leave the record as it is; the order matters only among the rest.
  have others : members.foldlM (readMember fields) record =
      (membersNamed (fields.map Field.name) members).foldlM (readMember fields) record := by
    rw [membersNamed, List.foldlM_filter]
    congr 1
    funext record member
    split
    next => rfl
    next other =>
      rw [readMember, find?_eq_none_iff.mpr (by simpa using other)]
      rfl
  rw [← foldlM_readMember_perm commute perm once, ← others]
  refine Option.ext fun final => ?_
  exact (readMembers_eq_some_iff named).trans ⟨fun read => read.2.2, fun read =>
    ⟨fun _ _ => List.not_mem_nil, once, read⟩⟩

end Records
/-! ### Plans and requests given in part -/

/-- The fields of a plan that are given. -/
structure PlanDraft where
  cycles : Option UInt64 := none
  seed : Option UInt64 := none

namespace PlanDraft

def fieldNames : List String :=
  ["cycles", "seed"]

def members (draft : PlanDraft) : List (String × Value) :=
  (draft.cycles.map fun cycles => ("cycles", .natural cycles.toNat)).toList ++
  (draft.seed.map fun seed => ("seed", .natural seed.toNat)).toList

/-- The plan with the default of every field that is not given. -/
def complete (draft : PlanDraft) : RunPlan where
  cycles := draft.cycles.getD (default : RunPlan).cycles
  seed := draft.seed.getD (default : RunPlan).seed

/-- The value is an object that gives the fields of the draft and no other field of a plan. -/
def IsGivenBy (draft : PlanDraft) (value : Value) : Prop :=
  Gives fieldNames draft.members value

end PlanDraft

/-- The fields of a request that are given, and of its plan if that is. -/
structure Draft where
  selection : Option Selection := none
  args : Option (Option String) := none
  format : Option Format := none
  plan : Option PlanDraft := none

namespace Draft

def fieldNames : List String :=
  ["selection", "args", "format", "run"]

/-- The members that give the fields of the draft, apart from its plan. -/
def members (draft : Draft) : List (String × Value) :=
  (draft.selection.map fun selection => ("selection", selectionToJson selection)).toList ++
  (draft.args.map fun args => ("args", argsToJson args)).toList ++
  (draft.format.map fun format => ("format", .text format.name)).toList

/-- The request with the default of every field that is not given, also in its plan. -/
def complete (draft : Draft) : Request where
  selection := draft.selection.getD (default : Request).selection
  args := draft.args.getD (default : Request).args
  format := draft.format.getD (default : Request).format
  plan := (draft.plan.map PlanDraft.complete).getD (default : Request).plan

/-- The value is an object that gives the fields of the draft and no other field of a request, and
so does the object that it gives for the plan, if there is one. -/
def IsGivenBy (draft : Draft) (value : Value) : Prop :=
  ∃ run : Option Value, Option.Rel PlanDraft.IsGivenBy draft.plan run ∧
    Gives fieldNames (draft.members ++ (run.map fun plan => ("run", plan)).toList) value

end Draft

/-- The value is an object that gives a field of a request or of its plan more than once. -/
def RepeatsField (value : Value) : Prop :=
  Repeats Draft.fieldNames value ∨
    ∃ members plan, value.members? = some members ∧ ("run", plan) ∈ members ∧
      Repeats PlanDraft.fieldNames plan

theorem commute_planFields : planFields.Pairwise Field.Commutes := by
  simp only [planFields, Field.Commutes, List.pairwise_cons, List.forall_mem_cons,
    List.not_mem_nil, false_implies, implies_true, List.Pairwise.nil, and_true, Option.pure_def,
    Option.bind_eq_bind, Option.bind_assoc, Option.bind_some]
  exact fun value value' plan => Option.bind_comm _ _

theorem commute_fields : fields.Pairwise Field.Commutes := by
  simp only [fields, Field.Commutes, List.pairwise_cons, List.forall_mem_cons,
    List.not_mem_nil, false_implies, implies_true, List.Pairwise.nil, and_true, Option.pure_def,
    Option.bind_eq_bind, Option.bind_assoc, Option.bind_some]
  refine ⟨⟨?_, ?_, ?_⟩, ⟨?_, ?_⟩, ?_⟩
  all_goals exact fun value value' request => Option.bind_comm _ _

theorem readRecord_planFields {draft : PlanDraft} {value : Value} (given : draft.IsGivenBy value) :
    readRecord planFields default value = some draft.complete := by
  have once : (draft.members.map Prod.fst).Nodup := by
    rcases draft with ⟨_ | cycles, _ | seed⟩ <;> simp [PlanDraft.members]
  rw [readRecord_of_gives commute_planFields given once]
  rcases draft with ⟨_ | cycles, _ | seed⟩
  all_goals simp [PlanDraft.members, PlanDraft.complete, readMember, planFields, wordOf?_natural]

theorem foldlM_members (draft : Draft) : draft.members.foldlM (readMember fields) default =
    some { draft.complete with plan := default } := by
  rcases draft with ⟨_ | selection, _ | args, _ | format, plan⟩
  all_goals
    simp [Draft.members, Draft.complete, readMember, fields, selectionOf?_selectionToJson,
      argsOf?_argsToJson, formatOf?_text]
    rfl

theorem ofJson?_of_draft {draft : Draft} {value : Value} (given : draft.IsGivenBy value) :
    ofJson? value = some draft.complete := by
  obtain ⟨run, plan_given, gives⟩ := given
  have once : ((draft.members ++ (run.map fun plan => ("run", plan)).toList).map
      Prod.fst).Nodup := by
    rcases draft with ⟨_ | selection, _ | args, _ | format, _⟩ <;> cases run <;>
      simp [Draft.members]
  rw [ofJson?, readRecord_of_gives commute_fields gives once, List.foldlM_append, foldlM_members]
  obtain ⟨selection, args, format, plan⟩ := draft
  cases plan_given with
  | none => rfl
  | some given => simp [readMember, fields, readRecord_planFields given, Draft.complete]

theorem ofJson?_of_repeats {value : Value} (repeats : RepeatsField value) :
    ofJson? value = none := by
  rcases repeats with repeats | ⟨members, plan, named, among, repeats⟩
  · exact readRecord_of_repeats fields repeats default
  · refine readRecord_of_refused named among (fun record => ?_) default
    have refused : readRecord planFields default plan = none :=
      readRecord_of_repeats planFields repeats default
    simp [readMember, fields, refused]

/-- However it is written, an object that gives some fields of a request is read as the request with
the defaults of the others, whatever the order of its members and whatever stands among them under
other names, in the object and in the one for the plan. An object that gives a field twice, in one
or the other, is refused. -/
theorem parse_written (source : Json.Source) :
    (∀ draft : Draft, draft.IsGivenBy source.document.value →
      parse source.text = .ok draft.complete) ∧
    (RepeatsField source.document.value → parse source.text = .error .malformedJson) := by
  simp only [parse, Json.parse?_text, Option.bind_some]
  constructor
  · intro draft given
    rw [ofJson?_of_draft given]
  · intro repeats
    rw [ofJson?_of_repeats repeats]

/-- The arguments and the seed, behind other members and in another order. The name of the plan is
spelled with an escape. -/
def reordered : Json.Source where
  before := .empty
  document :=
    let plan : Json.Members :=
      .next .empty (Spelling.ofText "seed" (by decide)) .empty .empty
        (.number { whole := 7 }) .empty <|
      .last .empty (Spelling.ofText "args" (by decide)) .empty .empty .null .empty
    .object <|
      .next .empty (Spelling.ofText "note" (by decide)) .empty .empty
        (.array (.last .empty (.emptyObject .empty) .empty)) .empty <|
      .next .empty (.hex '0' '0' '7' '2' 0x72 (by decide) :: Spelling.ofText "un" (by decide))
        .empty .empty (.object plan) .empty <|
      .last .empty (Spelling.ofText "args" (by decide)) .empty ⟨[' '], by simp [Json.isBlank]⟩
        (.string (Spelling.ofText "4-1" (by decide))) .empty
  after := ⟨['\n'], by simp [Json.isBlank]⟩

/-- The arguments twice, the second time as null. -/
def repeated : Json.Source where
  before := .empty
  document := .object <|
    .next .empty (Spelling.ofText "args" (by decide)) .empty .empty
      (.string (Spelling.ofText "4-1" (by decide))) .empty <|
    .last .empty (Spelling.ofText "args" (by decide)) .empty .empty .null .empty
  after := .empty

theorem parse_written_of_reordered :
    (reordered.text = "\x7b\"note\":[\x7b\x7d],\"\\u0072un\":\x7b\"seed\":7,\"args\":null\x7d," ++
        "\"args\": \"4-1\"\x7d\n" ∧
      parse reordered.text = .ok { args := some "4-1", plan := { seed := 7 } }) ∧
    repeated.text = "\x7b\"args\":\"4-1\",\"args\":null\x7d" ∧
      parse repeated.text = .error .malformedJson := by
  have given : Draft.IsGivenBy { args := some (some "4-1"), plan := some { seed := some 7 } }
      reordered.document.value :=
    ⟨some _, .some ⟨_, rfl, .refl _⟩, _, rfl, .swap _ _ _⟩
  have twice : RepeatsField repeated.document.value :=
    .inl ⟨_, rfl, "args", by decide, by decide⟩
  exact ⟨⟨by decide, (parse_written reordered).1 _ given⟩, by decide,
    (parse_written repeated).2 twice⟩

end GoldenCircuit.Request
