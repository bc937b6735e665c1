import ForgeLink.Lib.AssocMap

/-!
# Static tokens

`auth.rs`.  A file of credentials is loaded once.  A token is looked up among its
entries (`authenticate`), and the role of a subject in an index of its own
(`authorize`).  One loop fills both, and rejects a file in which a token or a
subject occurs twice; so the two agree (`Loaded`), and the entry of one subject
decides alone what the holder of its token may do (`authenticate_authorize`).

The JSON of the file is read by `fromStr`, a parameter.
-/

namespace ForgeLink.Control

open Lib

/-! ## Roles -/

/-- `Role`, in ascending order. -/
inductive Role where
  | viewer
  | operator
  | engineer
  | administrator
deriving DecidableEq, Repr

/-- The rank of a role. -/
def Role.toNat : Role → Nat
  | .viewer => 0
  | .operator => 1
  | .engineer => 2
  | .administrator => 3

instance : LE Role := ⟨fun a b => a.toNat ≤ b.toNat⟩

instance (a b : Role) : Decidable (a ≤ b) := inferInstanceAs (Decidable (a.toNat ≤ b.toNat))

/-- The `{:?}` form. -/
def Role.debug : Role → String
  | .viewer => "Viewer"
  | .operator => "Operator"
  | .engineer => "Engineer"
  | .administrator => "Administrator"

/-- A role is as good as the required one. -/
def roleOrdering (granted required : Role) : Bool := required ≤ granted

/-- `AuthorizationError`. -/
structure AuthorizationError where
  code : String
  message : String
deriving DecidableEq, Repr

/-! ## Loading -/

/-- The schema of a credentials file. -/
def credentialsSchema : String := "forgelink.control.credentials.v1"

/-- `CredentialsError`, without those of the file system. -/
inductive CredentialsError where
  | parse (reason : String)
  | schemaMismatch (actual : String)
  | duplicateToken
  | duplicateSubject
  | emptySubject
deriving DecidableEq, Repr

/-- `CredentialEntry`, and `CredentialEntryRaw` of the file. -/
structure CredentialEntry where
  token : String
  subject : String
  role : Role
deriving DecidableEq, Repr

/-- A credentials file, as it is read. -/
structure CredentialsFile where
  schema : String
  credentials : List CredentialEntry
deriving DecidableEq, Repr

/-- `StaticTokenAuthorizer`. -/
structure StaticTokenAuthorizer where
  entries : List CredentialEntry
  roles : AssocMap String Role

/-- The variables of the loop of `parse`. -/
structure Loading where
  entries : List CredentialEntry
  seen : List String
  subjects : List String
  roles : AssocMap String Role

/-- Take one more entry, with the checks of `parse`. -/
def Loading.insert (loading : Loading) (raw : CredentialEntry) : Except CredentialsError Loading :=
  if raw.token.isEmpty then .error .duplicateToken
  else if raw.subject.isEmpty then .error .emptySubject
  else if raw.token ∈ loading.seen then .error .duplicateToken
  else if raw.subject ∈ loading.subjects then .error .duplicateSubject
  else .ok
    { entries := loading.entries ++ [raw]
      seen := raw.token :: loading.seen
      subjects := raw.subject :: loading.subjects
      roles := loading.roles.insert raw.subject raw.role }

namespace StaticTokenAuthorizer

/-- The authorizer of a credentials file. -/
def parse (fromStr : String → Except String CredentialsFile) (content : String) :
    Except CredentialsError StaticTokenAuthorizer :=
  match fromStr content with
  | .error reason => .error (.parse reason)
  | .ok file =>
    if file.schema ≠ credentialsSchema then .error (.schemaMismatch file.schema)
    else do
      let loading ← file.credentials.foldlM Loading.insert ⟨[], [], [], .empty⟩
      .ok ⟨loading.entries, loading.roles⟩

end StaticTokenAuthorizer

/-! ## Looking up -/

/-- `constant_time_eq`. -/
def constantTimeEq (a b : List UInt8) : Bool :=
  if a.length ≠ b.length then false
  else (a.zip b).foldl (fun diff p => diff ||| (p.1 ^^^ p.2)) 0 = 0

/-- `as_bytes`. -/
def asBytes (s : String) : List UInt8 := s.toByteArray.data.toList

namespace StaticTokenAuthorizer

/-- All entries are compared; the last that matches counts. -/
def authenticate (a : StaticTokenAuthorizer) (token : String) : Option (String × Role) :=
  let matched := a.entries.zipIdx.foldl
    (fun matched entry =>
      if constantTimeEq (asBytes token) (asBytes entry.1.token) then some entry.2 else matched)
    none
  (matched.bind (a.entries[·]?)).map fun entry => (entry.subject, entry.role)

/-- The role of a subject. -/
def roleOf (a : StaticTokenAuthorizer) (subject : String) : Option Role := a.roles.get? subject

/-- A subject without a role is a viewer. -/
def authorize (a : StaticTokenAuthorizer) (subject : String) (required : Role)
    (_deviceId : String) : Except AuthorizationError Unit :=
  let granted := (a.roleOf subject).getD .viewer
  if roleOrdering granted required then .ok ()
  else .error
    { code := "INSUFFICIENT_ROLE"
      message := "用户 " ++ subject ++ " 角色 " ++ granted.debug ++ " 不满足操作所需角色 " ++
        required.debug }

end StaticTokenAuthorizer

/-! ## Comparing -/

theorem foldl_diff {a b : List UInt8} (same : a.length = b.length) (diff : UInt8) :
    (a.zip b).foldl (fun diff p => diff ||| (p.1 ^^^ p.2)) diff = 0 ↔ diff = 0 ∧ a = b := by
  induction a generalizing b diff with
  | nil =>
    obtain rfl := List.length_eq_zero_iff.mp same.symm
    simp
  | cons x a ih =>
    cases b with
    | nil => cases same
    | cons y b =>
      rw [List.zip_cons_cons, List.foldl_cons, ih (Nat.succ.inj same), UInt8.or_eq_zero_iff,
        UInt8.xor_eq_zero_iff, List.cons.injEq, and_assoc]

theorem constantTimeEq_iff {a b : List UInt8} : constantTimeEq a b = true ↔ a = b := by
  unfold constantTimeEq
  split
  next differ => exact iff_of_false Bool.false_ne_true fun same => differ (congrArg _ same)
  next same =>
    rw [decide_eq_true_iff, foldl_diff (not_not.mp same)]
    simp

theorem asBytes_inj {s t : String} : asBytes s = asBytes t ↔ s = t := by
  refine ⟨fun same => String.toByteArray_inj.mp (ByteArray.ext (Array.toList_inj.mp same)), ?_⟩
  rintro rfl
  rfl

/-- The loop over the entries keeps the index of the last match. -/
theorem foldl_matched {α : Type} (p : α → Bool) (xs : List (α × Nat)) (start : Option Nat) :
    xs.foldl (fun matched x => if p x.1 then some x.2 else matched) start =
      ((xs.reverse.find? fun x => p x.1).map Prod.snd).or start := by
  induction xs generalizing start with
  | nil => rfl
  | cons x xs ih =>
    rw [List.foldl_cons, ih, List.reverse_cons, List.find?_append]
    cases xs.reverse.find? fun x => p x.1 with
    | some y => rfl
    | none =>
      by_cases holds : p x.1 = true
      · simp [holds]
      · simp [holds]

namespace StaticTokenAuthorizer

/-- The last entry with the token. -/
theorem authenticate_eq (a : StaticTokenAuthorizer) (token : String) :
    a.authenticate token = (a.entries.reverse.find? fun e => e.token = token).map fun e =>
      (e.subject, e.role) := by
  have entries : a.entries.reverse = a.entries.zipIdx.reverse.map Prod.fst := by
    rw [List.map_reverse, List.zipIdx_map_fst]
  have test : ∀ entry : CredentialEntry,
      constantTimeEq (asBytes token) (asBytes entry.token) = decide (entry.token = token) := by
    intro entry
    rw [Bool.eq_iff_iff, constantTimeEq_iff, asBytes_inj, decide_eq_true_iff, eq_comm]
  unfold authenticate
  simp only [test]
  rw [foldl_matched fun entry : CredentialEntry => decide (entry.token = token), entries,
    List.find?_map, Option.or_none]
  change _ =
    ((a.entries.zipIdx.reverse.find? fun x => decide (x.1.token = token)).map Prod.fst).map _
  cases found : a.entries.zipIdx.reverse.find? fun x => decide (x.1.token = token) with
  | none => rfl
  | some x =>
    have inside := List.mem_reverse.mp (List.mem_of_find?_eq_some found)
    have index := List.mem_zipIdx_iff_getElem?.mp inside
    simp [index]

end StaticTokenAuthorizer

/-! ## What was loaded -/

/-- What the loop of `parse` keeps: the sets and the index are those of the entries, and no token
and no subject occurs twice. -/
structure Loaded (loading : Loading) : Prop where
  seen : loading.seen = (loading.entries.map CredentialEntry.token).reverse
  subjects : loading.subjects = (loading.entries.map CredentialEntry.subject).reverse
  tokens : (loading.entries.map CredentialEntry.token).Nodup
  owners : (loading.entries.map CredentialEntry.subject).Nodup
  roles : ∀ e ∈ loading.entries, loading.roles.get? e.subject = some e.role

/-- A credential that is taken is loaded. -/
theorem Loaded.insert {loading loading' : Loading} (loaded : Loaded loading) {raw : CredentialEntry}
    (inserted : loading.insert raw = .ok loading') :
    Loaded loading' ∧ loading'.entries = loading.entries ++ [raw] := by
  unfold Loading.insert at inserted
  split at inserted
  next => cases inserted
  next =>
    split at inserted
    next => cases inserted
    next =>
      split at inserted
      next => cases inserted
      next unseen =>
        split at inserted
        next => cases inserted
        next unowned =>
          cases inserted
          rw [loaded.seen, List.mem_reverse] at unseen
          rw [loaded.subjects, List.mem_reverse] at unowned
          refine ⟨⟨?_, ?_, ?_, ?_, ?_⟩, rfl⟩
          · simp [loaded.seen]
          · simp [loaded.subjects]
          · rw [List.map_append]
            exact List.nodup_append.mpr ⟨loaded.tokens, by simp, by simpa using unseen⟩
          · rw [List.map_append]
            exact List.nodup_append.mpr ⟨loaded.owners, by simp, by simpa using unowned⟩
          · refine List.forall_mem_append.mpr ⟨fun e inside => ?_, by simp⟩
            have other : e.subject ≠ raw.subject := by
              rintro same
              exact unowned (same ▸ List.mem_map_of_mem inside)
            rw [AssocMap.get?_insert, if_neg other]
            exact loaded.roles e inside

theorem Loaded.foldlM {credentials : List CredentialEntry} {loading loading' : Loading}
    (loaded : Loaded loading) (done : credentials.foldlM Loading.insert loading = .ok loading') :
    Loaded loading' ∧ loading'.entries = loading.entries ++ credentials := by
  induction credentials generalizing loading with
  | nil =>
    cases done
    exact ⟨loaded, (List.append_nil _).symm⟩
  | cons raw credentials ih =>
    rw [List.foldlM_cons] at done
    cases inserted : loading.insert raw with
    | error e =>
      rw [inserted] at done
      cases done
    | ok next =>
      rw [inserted] at done
      obtain ⟨loaded, entries⟩ := loaded.insert inserted
      obtain ⟨loaded, all⟩ := ih loaded done
      exact ⟨loaded, by rw [all, entries, List.append_assoc]; rfl⟩

namespace StaticTokenAuthorizer

variable {fromStr : String → Except String CredentialsFile} {content : String}
  {a : StaticTokenAuthorizer}
variable {subject : String} {role : Role}

/-- An authorizer holds the entries of its file, and knows the role of each subject. -/
theorem parse_eq_ok (parsed : parse fromStr content = .ok a) :
    ∃ file, fromStr content = .ok file ∧ a.entries = file.credentials ∧
      (a.entries.map CredentialEntry.token).Nodup ∧
      ∀ e ∈ a.entries, a.roleOf e.subject = some e.role := by
  unfold parse at parsed
  split at parsed
  next => cases parsed
  next file read =>
    split at parsed
    next => cases parsed
    next =>
      cases done : file.credentials.foldlM Loading.insert ⟨[], [], [], .empty⟩ with
      | error e =>
        rw [done] at parsed
        cases parsed
      | ok loading =>
        rw [done] at parsed
        cases parsed
        have empty : Loaded ⟨[], [], [], .empty⟩ :=
          ⟨rfl, rfl, List.nodup_nil, List.nodup_nil, by simp⟩
        obtain ⟨loaded, entries⟩ := empty.foldlM done
        exact ⟨file, read, entries, loaded.tokens, loaded.roles⟩

/-- A token is that of an entry. -/
theorem authenticate_iff (tokens : (a.entries.map CredentialEntry.token).Nodup) {token : String} :
    a.authenticate token = some (subject, role) ↔ ⟨token, subject, role⟩ ∈ a.entries := by
  rw [authenticate_eq]
  constructor
  · intro found
    obtain ⟨e, last, same⟩ := Option.map_eq_some_iff.mp found
    obtain ⟨rfl, rfl⟩ := Prod.mk.inj same
    obtain rfl : e.token = token := by simpa using List.find?_some last
    exact List.mem_reverse.mp (List.mem_of_find?_eq_some last)
  · intro inside
    cases found : a.entries.reverse.find? fun e => decide (e.token = token) with
    | none =>
      have none := List.find?_eq_none.mp found _ (List.mem_reverse.mpr inside)
      exact absurd (decide_eq_true rfl) none
    | some e =>
      have same : e.token = token := by simpa using List.find?_some found
      have mem := List.mem_reverse.mp (List.mem_of_find?_eq_some found)
      obtain rfl := List.inj_on_of_nodup_map tokens mem inside same
      rfl

/-- A subject may do what its role allows. -/
theorem authorize_iff (known : a.roleOf subject = some role) (required : Role) (deviceId : String) :
    a.authorize subject required deviceId = .ok () ↔ required ≤ role := by
  unfold authorize
  rw [known]
  simp only [Option.getD_some, roleOrdering, decide_eq_true_eq]
  split
  next allowed => exact iff_of_true rfl allowed
  next denied => exact iff_of_false nofun denied

/-- The holder of a token of an accepted file has an entry there, and may do what its role
allows; and the same in any accepted file with the same entries of that subject. -/
theorem authenticate_authorize {token : String} (parsed : parse fromStr content = .ok a)
    (known : a.authenticate token = some (subject, role)) :
    (∃ file, fromStr content = .ok file ∧ ⟨token, subject, role⟩ ∈ file.credentials ∧
      ∀ content' file' a', fromStr content' = .ok file' → parse fromStr content' = .ok a' →
        (∀ e : CredentialEntry, e.subject = subject →
          (e ∈ file.credentials ↔ e ∈ file'.credentials)) →
        a'.authenticate token = some (subject, role) ∧
          ∀ required deviceId, a'.authorize subject required deviceId =
            a.authorize subject required deviceId) ∧
      ∀ required deviceId, a.authorize subject required deviceId = .ok () ↔ required ≤ role := by
  obtain ⟨file, read, entries, tokens, roles⟩ := parse_eq_ok parsed
  have entry := (authenticate_iff tokens).mp known
  have granted := roles _ entry
  refine ⟨⟨file, read, entries ▸ entry, ?_⟩, authorize_iff granted⟩
  intro content' file' a' read' parsed' same
  obtain ⟨file'', read'', entries', tokens', roles'⟩ := parse_eq_ok parsed'
  obtain rfl : file' = file'' := Except.ok.inj (read'.symm.trans read'')
  have entry' : ⟨token, subject, role⟩ ∈ a'.entries := by
    rw [entries']
    exact (same _ rfl).mp (entries ▸ entry)
  refine ⟨(authenticate_iff tokens').mpr entry', fun required deviceId => ?_⟩
  have granted' := roles' _ entry'
  unfold authorize
  rw [granted, granted']

end StaticTokenAuthorizer

/-- An operator. -/
def aliceEntry : CredentialEntry := ⟨"token-alice", "alice", .operator⟩

/-- An administrator. -/
def bobEntry : CredentialEntry := ⟨"token-bob", "bob", .administrator⟩

/-- The file with the first entry only. -/
def aliceText : String :=
  "\x7b\"schema\":\"forgelink.control.credentials.v1\",\"credentials\":[\x7b\"token\":" ++
    "\"token-alice\",\"subject\":\"alice\",\"role\":\"operator\"\x7d]\x7d"

/-- The file with both entries. -/
def bothText : String :=
  "\x7b\"schema\":\"forgelink.control.credentials.v1\",\"credentials\":[\x7b\"token\":" ++
    "\"token-bob\",\"subject\":\"bob\",\"role\":\"administrator\"\x7d,\x7b\"token\":" ++
    "\"token-alice\",\"subject\":\"alice\",\"role\":\"operator\"\x7d]\x7d"

/-- `serde_json::from_str` on those texts. -/
def sampleFromStr (content : String) : Except String CredentialsFile :=
  if content = aliceText then .ok ⟨credentialsSchema, [aliceEntry]⟩
  else if content = bothText then .ok ⟨credentialsSchema, [bobEntry, aliceEntry]⟩
  else .error "expected value at line 1 column 1"

/-- The entry of an administrator is added; the operator may do what they could. -/
theorem authenticate_authorize_added :
    ∃ a a', StaticTokenAuthorizer.parse sampleFromStr aliceText = .ok a ∧
      StaticTokenAuthorizer.parse sampleFromStr bothText = .ok a' ∧
      a'.authenticate "token-alice" = some ("alice", .operator) ∧
      a'.authorize "alice" .engineer "d1" = a.authorize "alice" .engineer "d1" ∧
      a.authorize "alice" .engineer "d1" ≠ .ok () := by
  have known : (StaticTokenAuthorizer.parse sampleFromStr aliceText).toOption.bind
      (·.authenticate "token-alice") = some ("alice", .operator) := by decide
  have accepted : (StaticTokenAuthorizer.parse sampleFromStr bothText).toOption.isSome = true := by
    decide
  have read : sampleFromStr aliceText = .ok ⟨credentialsSchema, [aliceEntry]⟩ := by decide
  have read' : sampleFromStr bothText = .ok ⟨credentialsSchema, [bobEntry, aliceEntry]⟩ := by
    decide
  cases parsed : StaticTokenAuthorizer.parse sampleFromStr aliceText with
  | error e =>
    rw [parsed] at known
    cases known
  | ok a =>
    rw [parsed] at known
    cases parsed' : StaticTokenAuthorizer.parse sampleFromStr bothText with
    | error e =>
      rw [parsed'] at accepted
      cases accepted
    | ok a' =>
      obtain ⟨⟨file, same, _, kept⟩, allowed⟩ :=
        StaticTokenAuthorizer.authenticate_authorize parsed known
      obtain rfl := Except.ok.inj (same.symm.trans read)
      obtain ⟨token, rights⟩ := kept bothText _ a' read' parsed' (by
        intro e alice
        have other : e ≠ bobEntry := by
          rintro rfl
          revert alice
          decide
        simp [other])
      refine ⟨a, a', rfl, rfl, token, rights _ _, fun granted => ?_⟩
      have engineer := (allowed .engineer "d1").mp granted
      revert engineer
      decide

end ForgeLink.Control
