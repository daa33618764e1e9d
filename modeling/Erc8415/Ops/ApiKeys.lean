import Mathlib.Data.List.Induction
import Erc8415.Foundation.LabelledRun
import Erc8415.Foundation.SplitText
import Erc8415.Proof.Profiles

/-! # API keys for tenant authentication

Only a hash of each secret is kept. A secret carries the id of its key, which
finds the record and the hash it is compared with. Over any sequence of issues
and revocations, what authenticates is the secret of a key that was issued and
has not been revoked since.
-/

namespace Erc8415

structure ApiKeyRecord where
  keyId : String
  tenantId : String
  label : String
  createdAt : Int
  revokedAt : Option Int
  deriving DecidableEq, Repr

/-- What is handed out once: the record, and the secret nothing stores. -/
structure IssuedKey where
  record : ApiKeyRecord
  secret : String

/-- `bytes.toString('hex')`. -/
def bytesHex (bytes : List UInt8) : String := String.ofList (Hex.ofBytes bytes)

/-- A call of `issue`: its arguments, the two draws of `randomBytes`, and the clock. -/
structure KeyIssue where
  tenantId : String
  label : String
  keyBytes : Vector UInt8 8
  secretBytes : Vector UInt8 24
  now : Int

namespace KeyIssue

variable (call : KeyIssue)

def keyId : String := bytesHex call.keyBytes.toList

def secret : String := s!"k8415_{call.keyId}_{bytesHex call.secretBytes.toList}"

def record : ApiKeyRecord where
  keyId := call.keyId
  tenantId := call.tenantId
  label := call.label
  createdAt := call.now
  revokedAt := none

end KeyIssue

structure ApiKeyStore where
  records : InsertionMap String ApiKeyRecord
  hashes : InsertionMap String (List UInt8)

namespace ApiKeyStore

/-- `new ApiKeyStore(clock)`. -/
def new : ApiKeyStore := ⟨InsertionMap.empty, InsertionMap.empty⟩

/-- SHA-256 of a secret. -/
def digest (secret : String) : List UInt8 := sha256 (utf8 secret)

def issue (s : ApiKeyStore) (call : KeyIssue) : ApiKeyStore × IssuedKey :=
  ({ records := s.records.set call.keyId call.record
     hashes := s.hashes.set call.keyId (digest call.secret) },
    ⟨call.record, call.secret⟩)

/-- Equality of buffers of one length. -/
def timingSafeEqual (supplied expected : List UInt8) : Bool := supplied = expected

/-- The key a secret authenticates, if any. -/
def authenticate (s : ApiKeyStore) (secret : String) : Option ApiKeyRecord :=
  match (SplitText.split '_' secret)[1]? with
  | none => none
  | some keyId =>
      match s.records.get keyId, s.hashes.get keyId with
      | some record, some expected =>
          let supplied := digest secret
          if supplied.length ≠ expected.length ∨ ¬ timingSafeEqual supplied expected then none
          else if record.revokedAt ≠ none then none
          else some record
      | _, _ => none

/-- Revoke a key: a second revocation, and one of an unknown key, change nothing. -/
def revoke (s : ApiKeyStore) (keyId : String) (now : Int) : ApiKeyStore × Option ApiKeyRecord :=
  match s.records.get keyId with
  | none => (s, none)
  | some record =>
      if record.revokedAt ≠ none then (s, some record)
      else
        let revoked := { record with revokedAt := some now }
        ({ s with records := s.records.set keyId revoked }, some revoked)

/-! ## Keys over a run -/

/-- The calls that change the store. -/
inductive KeyCall where
  | issue (call : KeyIssue)
  | revoke (keyId : String) (now : Int)

def step (s : ApiKeyStore) : KeyCall → ApiKeyStore
  | .issue call => (s.issue call).1
  | .revoke keyId now => (s.revoke keyId now).1

/-- The calls of `issue`, in order. -/
def issues (calls : List KeyCall) : List KeyIssue :=
  calls.filterMap fun
    | .issue call => some call
    | .revoke _ _ => none

theorem mem_issues {calls : List KeyCall} {call : KeyIssue} :
    call ∈ issues calls ↔ .issue call ∈ calls := by
  rw [issues, List.mem_filterMap]
  constructor
  · rintro ⟨c, hc, hcall⟩
    cases c with
    | issue call' =>
        cases hcall
        exact hc
    | revoke keyId now => cases hcall
  · intro hmem
    exact ⟨_, hmem, rfl⟩

/-! ## The id inside a secret -/

theorem notMem_bytesHex (bytes : List UInt8) : '_' ∉ (bytesHex bytes).toList := by
  rw [bytesHex, String.toList_ofList]
  intro hmem
  obtain ⟨n, hn, heq⟩ := Hex.mem_ofBytes hmem
  have hlower := Hex.digit_isLower hn
  rw [← heq] at hlower
  revert hlower
  decide

/-- The id is what stands between the two bars of a secret. -/
theorem split_secret (call : KeyIssue) :
    SplitText.split '_' call.secret =
      ["k8415", call.keyId, bytesHex call.secretBytes.toList] := by
  have hjoin : call.secret =
      SplitText.join '_' ["k8415", call.keyId, bytesHex call.secretBytes.toList] := by
    apply String.toList_injective
    simp [KeyIssue.secret, SplitText.join, toString]
  rw [hjoin, SplitText.split_join (by simp)]
  intro part hpart
  simp only [List.mem_cons, List.not_mem_nil, or_false] at hpart
  rcases hpart with rfl | rfl | rfl
  · decide
  · exact notMem_bytesHex _
  · exact notMem_bytesHex _

/-! ## One call -/

/-- What authenticates carries the id of a live record, and hashes to its hash. -/
theorem authenticate_eq_some {s : ApiKeyStore} {secret : String} {record : ApiKeyRecord} :
    s.authenticate secret = some record ↔
      ∃ keyId, (SplitText.split '_' secret)[1]? = some keyId ∧
        s.records.get keyId = some record ∧ s.hashes.get keyId = some (digest secret) ∧
        record.revokedAt = none := by
  unfold authenticate
  cases hkey : (SplitText.split '_' secret)[1]? with
  | none => simp
  | some keyId =>
      cases hrecord : s.records.get keyId with
      | none => simp [hrecord]
      | some found =>
          cases hhash : s.hashes.get keyId with
          | none => simp [hrecord, hhash]
          | some expected =>
              by_cases heq : digest secret = expected
              · by_cases hlive : found.revokedAt = none
                · simp only [timingSafeEqual, heq, hlive, hrecord, hhash]
                  grind
                · simp only [timingSafeEqual, heq, hrecord, hhash]
                  grind
              · simp only [timingSafeEqual, heq, hrecord, hhash]
                grind

/-- A key authenticates as soon as it is issued. -/
theorem authenticate_issue (s : ApiKeyStore) (call : KeyIssue) :
    (s.issue call).1.authenticate call.secret = some call.record := by
  apply authenticate_eq_some.mpr
  refine ⟨call.keyId, ?_, ?_, ?_, rfl⟩
  · rw [split_secret]
    rfl
  · exact InsertionMap.get_set_self _ _ _
  · exact InsertionMap.get_set_self _ _ _

@[simp] theorem revoke_hashes (s : ApiKeyStore) (keyId : String) (now : Int) :
    (s.revoke keyId now).1.hashes = s.hashes := by
  unfold revoke
  split
  · rfl
  · split <;> rfl

/-- A record after a revocation. -/
def stamped (now : Int) (record : ApiKeyRecord) : ApiKeyRecord :=
  if record.revokedAt ≠ none then record else { record with revokedAt := some now }

theorem stamped_revokedAt (now : Int) (record : ApiKeyRecord) :
    (stamped now record).revokedAt ≠ none := by
  unfold stamped
  split
  next hdate => exact hdate
  next => exact Option.some_ne_none now

/-- A revocation stamps the record of its key, and leaves every other. -/
theorem get_revoke (s : ApiKeyStore) (keyId keyId' : String) (now : Int) :
    (s.revoke keyId now).1.records.get keyId' =
      if keyId = keyId' then (s.records.get keyId').map (stamped now)
      else s.records.get keyId' := by
  unfold revoke
  by_cases hkey : keyId = keyId'
  · subst hkey
    cases hfound : s.records.get keyId with
    | none => simp [hfound]
    | some found =>
        by_cases hdate : found.revokedAt = none
        · simp [hdate, stamped]
        · simp [hdate, stamped, hfound]
  · rw [if_neg hkey]
    split
    next => rfl
    next =>
      split
      next => rfl
      next => exact InsertionMap.get_set_of_ne hkey

/-! ## What a run leaves behind -/

/-- The call of `issue` a live record and its hash come from, with no revocation since. -/
def Traced (calls : List KeyCall) (keyId : String) (record : ApiKeyRecord)
    (hash : List UInt8) : Prop :=
  ∃ before call after, calls = before ++ .issue call :: after ∧
    keyId = call.keyId ∧ hash = digest call.secret ∧
    (record.revokedAt = none → record = call.record ∧ ∀ now, .revoke keyId now ∉ after)

/-- A later call that is no revocation of a live key leaves the trace. -/
theorem Traced.later {calls : List KeyCall} {keyId : String} {record found : ApiKeyRecord}
    {hash : List UInt8} {c : KeyCall} (h : Traced calls keyId found hash)
    (hlive : record.revokedAt = none → record = found ∧ ∀ now, .revoke keyId now ≠ c) :
    Traced (calls ++ [c]) keyId record hash := by
  obtain ⟨before, call, after, heq, hkey, hhash, hcall⟩ := h
  refine ⟨before, call, after ++ [c], by rw [heq, List.append_assoc, List.cons_append], hkey,
    hhash, ?_⟩
  intro hnone
  obtain ⟨rfl, hc⟩ := hlive hnone
  obtain ⟨hrecord, hafter⟩ := hcall hnone
  refine ⟨hrecord, ?_⟩
  intro now hmem
  rcases List.mem_append.mp hmem with hmem | hmem
  · exact hafter now hmem
  · exact hc now (List.mem_singleton.mp hmem)

/-- Every record a run leaves is traced to a call of it. -/
theorem run_traced (calls : List KeyCall) {keyId : String} {record : ApiKeyRecord}
    {hash : List UInt8} (hrecord : (LabelledRun.run step new calls).records.get keyId = some record)
    (hhash : (LabelledRun.run step new calls).hashes.get keyId = some hash) :
    Traced calls keyId record hash := by
  induction calls using List.reverseRecOn generalizing record hash with
  | nil => cases hrecord
  | append_singleton calls c ih =>
      rw [LabelledRun.run_concat] at hrecord hhash
      cases c with
      | issue call =>
          simp only [step, issue] at hrecord hhash
          by_cases hkey : call.keyId = keyId
          · subst hkey
            rw [InsertionMap.get_set_self] at hrecord hhash
            cases hrecord
            cases hhash
            exact ⟨calls, call, [], rfl, rfl, rfl, fun _ => ⟨rfl, fun now hmem => by cases hmem⟩⟩
          · rw [InsertionMap.get_set_of_ne hkey] at hrecord hhash
            exact (ih hrecord hhash).later fun _ => ⟨rfl, fun now heq => by cases heq⟩
      | revoke keyId' now =>
          simp only [step, revoke_hashes, get_revoke] at hrecord hhash
          split at hrecord
          next =>
            obtain ⟨found, hfound, rfl⟩ := Option.map_eq_some_iff.mp hrecord
            exact (ih hfound hhash).later fun hlive => absurd hlive (stamped_revokedAt now found)
          next hne =>
            apply (ih hrecord hhash).later
            refine fun _ => ⟨rfl, ?_⟩
            rintro now' heq
            cases heq
            exact hne rfl

/-- The secrets a run issued. -/
def secrets (calls : List KeyCall) : List String := (issues calls).map KeyIssue.secret

/-- What authenticates after a run is the secret of a key the run issued and has not revoked
since, unless two of the hashed texts collide. -/
theorem run_authenticate {calls : List KeyCall} {secret : String} {record : ApiKeyRecord}
    (hfree : CollisionFree ((secret :: secrets calls).map utf8))
    (h : (LabelledRun.run step new calls).authenticate secret = some record) :
    ∃ before call after, calls = before ++ .issue call :: after ∧
      secret = call.secret ∧ record = call.record ∧
      ∀ now, .revoke call.keyId now ∉ after := by
  obtain ⟨keyId, _, hrecord, hhash, hlive⟩ := authenticate_eq_some.mp h
  obtain ⟨before, call, after, heq, rfl, hdigest, hcall⟩ := run_traced calls hrecord hhash
  obtain ⟨hissued, hafter⟩ := hcall hlive
  have hmem : call.secret ∈ secrets calls := by
    apply List.mem_map_of_mem
    rw [mem_issues, heq]
    exact List.mem_append_right _ List.mem_cons_self
  have hutf8 : utf8 secret = utf8 call.secret :=
    hfree _ (List.mem_map_of_mem List.mem_cons_self) _
      (List.mem_map_of_mem (List.mem_cons_of_mem _ hmem)) hdigest
  exact ⟨before, call, after, heq, utf8_injective hutf8, hissued, hafter⟩

/-- The record that authenticates is the one whose id the secret carries. -/
theorem run_authenticate_keyId {calls : List KeyCall} {secret : String} {record : ApiKeyRecord}
    (h : (LabelledRun.run step new calls).authenticate secret = some record) :
    (SplitText.split '_' secret)[1]? = some record.keyId := by
  obtain ⟨keyId, hsecret, hrecord, hhash, hlive⟩ := authenticate_eq_some.mp h
  obtain ⟨_, call, _, _, rfl, _, hcall⟩ := run_traced calls hrecord hhash
  rw [hsecret, (hcall hlive).1]
  rfl

/-! ## Revoked for good -/

/-- The key has a record, and it is revoked. -/
def Revoked (s : ApiKeyStore) (keyId : String) : Prop :=
  ∃ record, s.records.get keyId = some record ∧ record.revokedAt ≠ none

/-- No secret authenticates as a revoked key. -/
theorem Revoked.authenticate {s : ApiKeyStore} {keyId secret : String} (h : Revoked s keyId)
    (hsecret : (SplitText.split '_' secret)[1]? = some keyId) : s.authenticate secret = none := by
  obtain ⟨revoked, hrevoked, hdate⟩ := h
  cases hfound : s.authenticate secret with
  | none => rfl
  | some record =>
      obtain ⟨keyId', hkey, hrecord, _, hlive⟩ := authenticate_eq_some.mp hfound
      rw [hsecret] at hkey
      cases hkey
      rw [hrevoked] at hrecord
      cases hrecord
      exact absurd hlive hdate

/-- A key that has a record keeps one. -/
theorem step_known {s : ApiKeyStore} {keyId : String} (h : s.records.has keyId = true)
    (c : KeyCall) : (step s c).records.has keyId = true := by
  cases c with
  | issue call =>
      simp only [InsertionMap.has, step, issue, InsertionMap.get_set] at h ⊢
      split
      next => rfl
      next => exact h
  | revoke keyId' now =>
      simp only [InsertionMap.has, step, get_revoke] at h ⊢
      split
      next => rw [Option.isSome_map, h]
      next => exact h

/-- A revocation of a key that has a record revokes it. -/
theorem revoked_revoke {s : ApiKeyStore} {keyId : String} (h : s.records.has keyId = true)
    (now : Int) : Revoked (s.revoke keyId now).1 keyId := by
  obtain ⟨record, hrecord⟩ := (InsertionMap.has_eq_true _ _).mp h
  refine ⟨stamped now record, ?_, stamped_revokedAt now record⟩
  rw [get_revoke, if_pos rfl, hrecord, Option.map_some]

/-- A revoked key stays revoked, unless its id is issued again. -/
theorem step_revoked {s : ApiKeyStore} {keyId : String} (h : Revoked s keyId) {c : KeyCall}
    (hc : ∀ call, c = .issue call → call.keyId ≠ keyId) : Revoked (step s c) keyId := by
  obtain ⟨record, hrecord, hdate⟩ := h
  cases c with
  | issue call =>
      refine ⟨record, ?_, hdate⟩
      simp only [step, issue]
      rw [InsertionMap.get_set_of_ne (hc call rfl), hrecord]
  | revoke keyId' now =>
      simp only [Revoked, step, get_revoke]
      split
      next => exact ⟨stamped now record, by rw [hrecord, Option.map_some],
        stamped_revokedAt now record⟩
      next => exact ⟨record, hrecord, hdate⟩

theorem run_stays_revoked {s : ApiKeyStore} {keyId : String} (h : Revoked s keyId)
    {calls : List KeyCall} (hcalls : ∀ call, .issue call ∈ calls → call.keyId ≠ keyId) :
    Revoked (LabelledRun.run step s calls) keyId := by
  induction calls generalizing s with
  | nil => exact h
  | cons c rest ih =>
      have hstep : Revoked (step s c) keyId := by
        apply step_revoked h
        rintro call rfl
        exact hcalls call List.mem_cons_self
      exact ih hstep fun call hmem => hcalls call (List.mem_cons_of_mem _ hmem)

/-- Where every id is issued once, a key that was issued and then revoked is revoked at the
end of the run. -/
theorem run_revoked {before between after : List KeyCall} {call : KeyIssue} {now : Int}
    (hnodup : ((issues (before ++ .issue call :: between ++ .revoke call.keyId now :: after)).map
      KeyIssue.keyId).Nodup) :
    Revoked (LabelledRun.run step new
      (before ++ .issue call :: between ++ .revoke call.keyId now :: after)) call.keyId := by
  have hissued : (step (LabelledRun.run step new before) (.issue call)).records.has
      call.keyId = true := by
    simp [InsertionMap.has, step, issue]
  have hknown := LabelledRun.run_invariant step (fun s => s.records.has call.keyId = true)
    (fun s c h => step_known h c) hissued between
  have hlater : ∀ again, .issue again ∈ after → again.keyId ≠ call.keyId := by
    intro again hagain heq
    simp only [issues, List.filterMap_append, List.filterMap_cons, List.map_append,
      List.map_cons] at hnodup
    refine (List.nodup_append.mp hnodup).2.2 call.keyId ?_ again.keyId ?_ heq.symm
    · exact List.mem_append_right _ List.mem_cons_self
    · exact List.mem_map_of_mem (mem_issues.mpr hagain)
  rw [LabelledRun.run_append, LabelledRun.run_append, LabelledRun.run_cons, LabelledRun.run_cons]
  exact run_stays_revoked (revoked_revoke hknown now) hlater

end ApiKeyStore

end Erc8415
