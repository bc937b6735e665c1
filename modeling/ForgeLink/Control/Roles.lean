import ForgeLink.Control.Auth
import Mathlib.Data.List.Induction

/-!
# Roles and denials

`MemoryAuthorizer` of `role.rs`: roles by subject, and a list of denials.  A denial is kept
as the text `subject@device_id`, and the text does not say where the subject ends.  Two
pairs with one text differ by a part that ends the subject of the one and begins the
device of the other (`denial_eq_iff`); a denial of one of them denies both.
-/

namespace ForgeLink.Control

open Lib

/-- `MemoryAuthorizer`. -/
structure MemoryAuthorizer where
  roles : AssocMap String Role
  denied : List String

/-- The text of a denial. -/
def denial (subject deviceId : String) : String := subject ++ "@" ++ deviceId

/-- The error for a device that is denied. -/
def deniedError (subject deviceId : String) : AuthorizationError where
  code := "INSUFFICIENT_ROLE"
  message := "用户 " ++ subject ++ " 被禁止操作设备 " ++ deviceId

/-- The error for a role that is too low. -/
def insufficientRole (subject : String) (granted required : Role) : AuthorizationError where
  code := "INSUFFICIENT_ROLE"
  message := "用户 " ++ subject ++ " 角色 " ++ granted.debug ++ " 不满足操作所需角色 " ++
    required.debug

/-- A call that changes the authorizer. -/
inductive RoleCall where
  | setRole (subject : String) (role : Role)
  | removeRole (subject : String)
  | deny (subject deviceId : String)
deriving DecidableEq, Repr

namespace MemoryAuthorizer

/-- Nobody has a role, and nothing is denied. -/
def new : MemoryAuthorizer := ⟨.empty, []⟩

/-- Give a subject a role. -/
def setRole (auth : MemoryAuthorizer) (subject : String) (role : Role) : MemoryAuthorizer :=
  { auth with roles := auth.roles.insert subject role }

/-- Take the role of a subject away. -/
def removeRole (auth : MemoryAuthorizer) (subject : String) : MemoryAuthorizer :=
  { auth with roles := auth.roles.erase subject }

/-- Deny a device to a subject. -/
def deny (auth : MemoryAuthorizer) (subject deviceId : String) : MemoryAuthorizer :=
  { auth with denied := auth.denied ++ [denial subject deviceId] }

/-- The role of a subject. -/
def roleOf (auth : MemoryAuthorizer) (subject : String) : Option Role := auth.roles.get? subject

/-- A denial comes first; a subject without a role is a viewer. -/
def authorize (auth : MemoryAuthorizer) (subject : String) (required : Role) (deviceId : String) :
    Except AuthorizationError Unit :=
  if auth.denied.any fun entry => entry = denial subject deviceId then
    .error (deniedError subject deviceId)
  else
    let granted := (auth.roleOf subject).getD .viewer
    if roleOrdering granted required then .ok ()
    else .error (insufficientRole subject granted required)

/-- One call. -/
def call (auth : MemoryAuthorizer) : RoleCall → MemoryAuthorizer
  | .setRole subject role => auth.setRole subject role
  | .removeRole subject => auth.removeRole subject
  | .deny subject deviceId => auth.deny subject deviceId

/-- A new authorizer after a sequence of calls. -/
def after (calls : List RoleCall) : MemoryAuthorizer := calls.foldl call new

end MemoryAuthorizer

/-! ## What the calls ask for -/

/-- The role that a call gives a subject. -/
def RoleCall.gives (subject : String) : RoleCall → Option Role
  | .setRole s role => if s = subject then some role else none
  | .removeRole s => if s = subject then some .viewer else none
  | .deny _ _ => none

/-- The last role that was set for a subject. -/
def lastRole (calls : List RoleCall) (subject : String) : Role :=
  (calls.reverse.findSome? (RoleCall.gives subject)).getD .viewer

/-- A call that denies another pair. -/
def RoleCall.deniesOther (subject deviceId : String) : RoleCall → Bool
  | .deny s d => (s, d) ≠ (subject, deviceId)
  | _ => false

/-- The answer to a subject and a device is a denial exactly if this pair was denied, and is
decided by the subject's role otherwise; denials of other pairs make no difference. -/
structure Exact (calls : List RoleCall) (subject : String) (required : Role)
    (deviceId : String) : Prop where
  denied : (MemoryAuthorizer.after calls).authorize subject required deviceId =
    .error (deniedError subject deviceId) ↔ .deny subject deviceId ∈ calls
  granted : .deny subject deviceId ∉ calls →
    ((MemoryAuthorizer.after calls).authorize subject required deviceId = .ok () ↔
      required ≤ lastRole calls subject)
  others : (MemoryAuthorizer.after calls).authorize subject required deviceId =
    (MemoryAuthorizer.after
      (calls.filter fun call => !call.deniesOther subject deviceId)).authorize
        subject required deviceId

/-! ## The text of a denial -/

/-- A part of the text belongs to the subject of the one pair and to the device of the
other. -/
def Shifted (subject deviceId subject' deviceId' : String) : Prop :=
  ∃ part, subject' = denial subject part ∧ deviceId = denial part deviceId' ∨
    subject = denial subject' part ∧ deviceId' = denial part deviceId

theorem toList_denial (subject deviceId : String) :
    (denial subject deviceId).toList = subject.toList ++ '@' :: deviceId.toList := by
  simp [denial]

/-- One text, where the first subject is not longer than the second. -/
theorem parts_of_append {subject deviceId subject' deviceId' : String} {part : List Char}
    (front : subject'.toList = subject.toList ++ part)
    (back : '@' :: deviceId.toList = part ++ '@' :: deviceId'.toList) :
    subject = subject' ∧ deviceId = deviceId' ∨
      ∃ part, subject' = denial subject part ∧ deviceId = denial part deviceId' := by
  cases part with
  | nil =>
    rw [List.append_nil] at front
    exact .inl ⟨String.toList_inj.mp front.symm, String.toList_inj.mp (List.cons.inj back).2⟩
  | cons c part =>
    obtain ⟨rfl, rest⟩ := List.cons.inj back
    refine .inr ⟨String.ofList part, ?_, ?_⟩
    · rw [← String.toList_inj, toList_denial, front, String.toList_ofList]
    · rw [← String.toList_inj, toList_denial, rest, String.toList_ofList]
      rfl

theorem denial_assoc (subject part deviceId : String) :
    denial (denial subject part) deviceId = denial subject (denial part deviceId) := by
  simp only [denial, String.append_assoc]

/-- When two refusals have one text. -/
theorem denial_eq_iff {subject deviceId subject' deviceId' : String} :
    denial subject deviceId = denial subject' deviceId' ↔
      subject = subject' ∧ deviceId = deviceId' ∨
        Shifted subject deviceId subject' deviceId' := by
  constructor
  · intro same
    have texts := congrArg String.toList same
    rw [toList_denial, toList_denial] at texts
    rcases List.append_eq_append_iff.mp texts with ⟨part, front, back⟩ | ⟨part, front, back⟩
    · rcases parts_of_append front back with same | ⟨part, here⟩
      · exact .inl same
      · exact .inr ⟨part, .inl here⟩
    · rcases parts_of_append front back with ⟨rfl, rfl⟩ | ⟨part, here⟩
      · exact .inl ⟨rfl, rfl⟩
      · exact .inr ⟨part, .inr here⟩
  · rintro (⟨rfl, rfl⟩ | ⟨part, ⟨rfl, rfl⟩ | ⟨rfl, rfl⟩⟩)
    · rfl
    · exact (denial_assoc ..).symm
    · exact denial_assoc ..

namespace MemoryAuthorizer

/-! ## The authorizer after a sequence of calls -/

/-- The text that a call adds to the denials. -/
def text : RoleCall → Option String
  | .deny subject deviceId => some (denial subject deviceId)
  | _ => none

theorem after_denied (calls : List RoleCall) : (after calls).denied = calls.filterMap text := by
  induction calls using List.reverseRecOn with
  | nil => rfl
  | append_singleton calls c ih =>
    rw [after, List.foldl_append, List.filterMap_append, ← ih]
    cases c with
    | setRole | removeRole => exact (List.append_nil _).symm
    | deny => rfl

theorem call_role (auth : MemoryAuthorizer) (c : RoleCall) (subject : String) :
    ((auth.call c).roleOf subject).getD .viewer =
      (c.gives subject).getD ((auth.roleOf subject).getD .viewer) := by
  cases c with
  | setRole s role =>
    by_cases here : s = subject
    · simp [call, setRole, roleOf, RoleCall.gives, here]
    · simp [call, setRole, roleOf, RoleCall.gives, here, Ne.symm here]
  | removeRole s =>
    by_cases here : s = subject
    · simp [call, removeRole, roleOf, RoleCall.gives, here]
    · simp [call, removeRole, roleOf, RoleCall.gives, here, Ne.symm here]
  | deny => rfl

theorem after_role (calls : List RoleCall) (subject : String) :
    ((after calls).roleOf subject).getD .viewer = lastRole calls subject := by
  induction calls using List.reverseRecOn with
  | nil => rfl
  | append_singleton calls c ih =>
    rw [after, List.foldl_append, List.foldl_cons, List.foldl_nil, call_role, ← after, ih, lastRole,
      lastRole, List.reverse_append, List.reverse_singleton, List.singleton_append,
      List.findSome?_cons]
    cases c.gives subject <;> rfl

/-- A pair with the same text was denied. -/
def Hit (calls : List RoleCall) (subject deviceId : String) : Prop :=
  ∃ s d, .deny s d ∈ calls ∧ denial subject deviceId = denial s d

theorem any_denied_iff (calls : List RoleCall) (subject deviceId : String) :
    ((after calls).denied.any fun entry => entry = denial subject deviceId) = true ↔
      Hit calls subject deviceId := by
  rw [after_denied, List.any_eq_true]
  constructor
  · rintro ⟨entry, inside, same⟩
    obtain ⟨c, called, text⟩ := List.mem_filterMap.mp inside
    cases c with
    | setRole | removeRole => cases text
    | deny s d =>
      obtain rfl := Option.some.inj text
      exact ⟨s, d, called, (of_decide_eq_true same).symm⟩
  · rintro ⟨s, d, called, same⟩
    exact ⟨_, List.mem_filterMap.mpr ⟨_, called, rfl⟩, decide_eq_true same.symm⟩

/-- The answer by the role alone. -/
def byRole (subject : String) (granted required : Role) : Except AuthorizationError Unit :=
  if required ≤ granted then .ok () else .error (insufficientRole subject granted required)

variable {calls : List RoleCall} {subject deviceId : String}

theorem authorize_of_hit (required : Role) (hit : Hit calls subject deviceId) :
    (after calls).authorize subject required deviceId = .error (deniedError subject deviceId) :=
  if_pos ((any_denied_iff ..).mpr hit)

theorem authorize_of_not_hit (required : Role) (spared : ¬Hit calls subject deviceId) :
    (after calls).authorize subject required deviceId =
      byRole subject (lastRole calls subject) required := by
  rw [authorize, if_neg (mt (any_denied_iff ..).mp spared), after_role]
  exact if_congr decide_eq_true_iff rfl rfl

/-- The two errors are told apart by their texts. -/
theorem byRole_ne_denied (granted required : Role) :
    byRole subject granted required ≠ .error (deniedError subject deviceId) := by
  rw [byRole]
  split
  · rintro ⟨⟩
  · intro same
    have texts := congrArg (fun e => e.message.toList) (Except.error.inj same)
    simp [insufficientRole, deniedError] at texts

theorem byRole_eq_ok (granted required : Role) :
    byRole subject granted required = .ok () ↔ required ≤ granted := by
  rw [byRole]
  split
  next enough => exact iff_of_true rfl enough
  next low => exact iff_of_false (by rintro ⟨⟩) low

/-! ## Without the denials of other pairs -/

/-- The calls without the denials of other pairs. -/
def own (subject deviceId : String) (calls : List RoleCall) : List RoleCall :=
  calls.filter fun call => !call.deniesOther subject deviceId

theorem hit_own_iff : Hit (own subject deviceId calls) subject deviceId ↔
    .deny subject deviceId ∈ calls := by
  constructor
  · rintro ⟨s, d, called, _⟩
    obtain ⟨called, mine⟩ := List.mem_filter.mp called
    have same : (s, d) = (subject, deviceId) := by simpa [RoleCall.deniesOther] using mine
    cases same
    exact called
  · intro called
    refine ⟨subject, deviceId, List.mem_filter.mpr ⟨called, ?_⟩, rfl⟩
    simp [RoleCall.deniesOther]

theorem lastRole_own : lastRole (own subject deviceId calls) subject = lastRole calls subject := by
  rw [lastRole, lastRole, own, ← List.filter_reverse]
  congr 1
  induction calls.reverse with
  | nil => rfl
  | cons c calls ih =>
    cases c with
    | setRole s role | removeRole s =>
      rw [List.filter_cons_of_pos rfl, List.findSome?_cons, List.findSome?_cons, ih]
    | deny s d =>
      rw [List.filter_cons]
      split <;> exact ih

end MemoryAuthorizer

open MemoryAuthorizer

/-- For every sequence of calls, the answer to a subject and a device is exact if and only if
this pair was denied itself, or no pair was denied that differs from it by a part of the
subject that is a part of the device. -/
theorem deny_exact_iff (calls : List RoleCall) (subject : String) (required : Role)
    (deviceId : String) :
    Exact calls subject required deviceId ↔
      .deny subject deviceId ∈ calls ∨
        ∀ s d, .deny s d ∈ calls → ¬Shifted subject deviceId s d := by
  constructor
  · intro exact
    by_cases own : .deny subject deviceId ∈ calls
    · exact .inl own
    · refine .inr fun s d called shifted => own (exact.denied.mp ?_)
      exact authorize_of_hit required ⟨s, d, called, denial_eq_iff.mpr (.inr shifted)⟩
  · intro apart
    have hit_iff : Hit calls subject deviceId ↔ .deny subject deviceId ∈ calls := by
      constructor
      · rintro ⟨s, d, called, same⟩
        rcases denial_eq_iff.mp same with ⟨rfl, rfl⟩ | shifted
        · exact called
        · exact apart.resolve_right fun all => all s d called shifted
      · exact fun called => ⟨subject, deviceId, called, rfl⟩
    by_cases own : .deny subject deviceId ∈ calls
    · have answer := authorize_of_hit required (hit_iff.mpr own)
      refine ⟨iff_of_true answer own, fun spared => absurd own spared, ?_⟩
      exact answer.trans (authorize_of_hit required (hit_own_iff.mpr own)).symm
    · have answer := authorize_of_not_hit required (mt hit_iff.mp own)
      refine ⟨iff_of_false ?_ own, fun _ => ?_, ?_⟩
      · rw [answer]
        exact byRole_ne_denied _ _
      · rw [answer]
        exact byRole_eq_ok _ _
      · rw [answer]
        refine Eq.trans ?_ (authorize_of_not_hit required (mt hit_own_iff.mp own)).symm
        rw [lastRole_own]

/-- An administrator whose name has an `@` in it, and a denial for another subject. -/
def joinedCalls : List RoleCall := [.setRole "ops@plant" .administrator, .deny "ops" "plant@press"]

/-- The denial of `plant@press` to `ops` denies `press` to `ops@plant`. -/
theorem denial_of_another_pair :
    (after joinedCalls).authorize "ops@plant" .operator "press" =
        .error (deniedError "ops@plant" "press") ∧
      .deny "ops@plant" "press" ∉ joinedCalls ∧
      Role.operator ≤ lastRole joinedCalls "ops@plant" := by
  decide

end ForgeLink.Control
