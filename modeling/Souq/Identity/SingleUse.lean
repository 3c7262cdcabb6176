import Souq.Identity.Resets
import Souq.Identity.Reuse

/-!
# Reset links are used once

A completion locks the row that it marks, so that no other can mark it before this one
has ended. That a user has one link at a time would take more: it holds exactly as long
as no request commits beside a link that it has not found.
-/

namespace Souq.Identity

open Transact Transition Database Table List

def Write.link : Write → Option ResetToken
  | .reset row => some row
  | _ => none

def linksOf (writes : List Write) : List ResetToken := writes.filterMap Write.link

@[simp] theorem linksOf_append (first second : List Write) :
    linksOf (first ++ second) = linksOf first ++ linksOf second := filterMap_append

@[simp] theorem linksOf_reset (rows : List ResetToken) :
    linksOf (rows.map Write.reset) = rows := by
  rw [linksOf, filterMap_map]
  exact filterMap_some

theorem resets_replay (writes : List Write) (db : Database) :
    (resetting.replay writes db).resets =
      (linksOf writes).foldl (fun rows row => upsert ResetToken.tokenHash row rows) db.resets :=
  Dialect.replay_filterMap (D := resetting) resets Write.link _
    (fun w _ => by cases w <;> rfl) writes db

theorem reset_replay (writes : List Write) (db : Database) (hash : ID) :
    ((resetting.replay writes db).reset hash = db.reset hash ∧
        ∀ row ∈ linksOf writes, row.tokenHash ≠ hash) ∨
      ∃ row ∈ linksOf writes, row.tokenHash = hash ∧
        (resetting.replay writes db).reset hash = some row := by
  unfold reset
  rw [resets_replay]
  exact find_foldl_upsert _ _ _

def Database.Keyed (db : Database) : Prop := (db.resets.map ResetToken.tokenHash).Nodup

theorem Database.Keyed.replay {db : Database} (keyed : db.Keyed) (writes : List Write) :
    (resetting.replay writes db).Keyed := by
  unfold Database.Keyed
  rw [resets_replay]
  exact nodup_foldl_upsert keyed _

/-- What the others may commit, given the locks that a transaction holds. -/
structure Disturbs (held : List Key) (db db' : Database) : Prop where
  stays : ∀ hash r, db.reset hash = some r → ∃ r', db'.reset hash = some r' ∧
    r'.userId = r.userId ∧ (r.used = true → r'.used = true) ∧ (.reset hash ∈ held → r' = r)
  absent : ∀ hash, db.reset hash = none → .reset hash ∈ held → db'.reset hash = none

/-- The `UPDATE` of a request: the tokens that it has found, those that are left, and the
rows that it has written. -/
structure Retiring (db : Database) (userId : ID) (found todo : List ID)
    (retired : List ResetToken) : Prop where
  left : ∀ hash ∈ todo, hash ∈ found
  known : ∀ hash ∈ found, ∃ r, db.reset hash = some r ∧ r.userId = userId
  rows : ∀ row ∈ retired, row.tokenHash ∈ found ∧ row.used = true ∧ row.userId = userId
  spent : ∀ hash ∈ found, hash ∈ todo ∨ (∃ row ∈ retired, row.tokenHash = hash) ∨
    ∃ r, db.reset hash = some r ∧ r.used = true

/-- How far a reset has come. -/
inductive Progress where
  | fresh
  | claimed (hash : ID)
  | retiring (userId : ID) (found todo : List ID)
  | issued (userId : ID) (found : List ID)

def Progress.Holds (db : Database) (writes : List Write) : Progress → Prop
  | .fresh => writes = []
  | .claimed hash => ∃ r, db.reset hash = some r ∧ r.used = false ∧
      linksOf writes = [{ r with used := true }]
  | .retiring userId found todo => ∃ retired : List ResetToken, writes = retired.map Write.reset ∧
      Retiring db userId found todo retired
  | .issued userId found => ∃ (retired : List ResetToken) (new : ResetToken),
      writes = (retired ++ [new]).map Write.reset ∧ Retiring db userId found [] retired ∧
        new.userId = userId ∧ new.used = false ∧ db.reset new.tokenHash = none

/-- What is noted of a transaction: its rows are locked, and each is a version of one that
can still be used, or new. -/
structure Claim (k : Progress) (db : Database) (writes : List Write) (held : List Key) : Prop where
  rows : ∀ row ∈ linksOf writes, .reset row.tokenHash ∈ held ∧
    ((∃ r, db.reset row.tokenHash = some r ∧ row = { r with used := true }) ∨
      db.reset row.tokenHash = none)
  progress : k.Holds db writes

section Notes

variable {k : Progress} {db db' : Database} {writes : List Write} {held : List Key}

theorem Retiring.stable {userId : ID} {found todo : List ID} {retired : List ResetToken}
    (retiring : Retiring db userId found todo retired) (disturbs : Disturbs held db db') :
    Retiring db' userId found todo retired where
  left := retiring.left
  known := by
    intro hash member
    obtain ⟨r, there, same⟩ := retiring.known hash member
    obtain ⟨r', there', kept, -⟩ := disturbs.stays hash r there
    exact ⟨r', there', kept.trans same⟩
  rows := retiring.rows
  spent := by
    intro hash member
    rcases retiring.spent hash member with left | written | ⟨r, there, used⟩
    · exact .inl left
    · exact .inr (.inl written)
    · obtain ⟨r', there', -, kept, -⟩ := disturbs.stays hash r there
      exact .inr (.inr ⟨r', there', kept used⟩)

/-- **A note survives** what the others commit. -/
theorem Claim.stable (claim : Claim k db writes held) (disturbs : Disturbs held db db') :
    Claim k db' writes held where
  rows := by
    intro row member
    obtain ⟨locked, version⟩ := claim.rows row member
    refine ⟨locked, ?_⟩
    rcases version with ⟨r, there, same⟩ | absent
    · obtain ⟨r', there', -, -, kept⟩ := disturbs.stays _ r there
      exact .inl ⟨r', there', (kept locked) ▸ same⟩
    · exact .inr (disturbs.absent _ absent locked)
  progress := by
    have progress := claim.progress
    cases k with
    | fresh => exact progress
    | claimed hash =>
      obtain ⟨r, there, unused, rows⟩ := progress
      have named : r.tokenHash = hash := key_of_find there
      have locked := (claim.rows { r with used := true } (by simp [rows])).1
      obtain ⟨r', there', -, -, kept⟩ := disturbs.stays hash r there
      rw [kept (named ▸ locked)] at there'
      exact ⟨r, there', unused, rows⟩
    | retiring userId found todo =>
      obtain ⟨retired, rows, retiring⟩ := progress
      exact ⟨retired, rows, retiring.stable disturbs⟩
    | issued userId found =>
      obtain ⟨retired, new, rows, retiring, owner, unused, absent⟩ := progress
      have locked := (claim.rows new (by rw [rows, linksOf_reset]; simp)).1
      exact ⟨retired, new, rows, retiring.stable disturbs, owner, unused,
        disturbs.absent _ absent locked⟩

/-- **A commit disturbs** only what it has locked, and no token that was used can be used
again. -/
theorem Claim.disturbs (claim : Claim k db writes held) {others : List Key}
    (apart : ∀ key ∈ others, key ∉ held) : Disturbs others db (resetting.replay writes db) where
  stays := by
    intro hash r there
    rcases reset_replay writes db hash with ⟨same, -⟩ | ⟨row, member, named, found⟩
    · exact ⟨r, same.trans there, rfl, id, fun _ => rfl⟩
    · obtain ⟨locked, version⟩ := claim.rows row member
      rw [named] at locked version
      rcases version with ⟨old, there', same⟩ | absent
      · cases there.symm.trans there'
        exact ⟨row, found, by rw [same], fun _ => by rw [same],
          fun mine => (apart _ mine locked).elim⟩
      · cases there.symm.trans absent
  absent := by
    intro hash absent mine
    rcases reset_replay writes db hash with ⟨same, -⟩ | ⟨row, member, named, found⟩
    · exact same.trans absent
    · have locked := (claim.rows row member).1
      rw [named] at locked
      exact (apart _ mine locked).elim

end Notes

/-- A statement that writes no reset token. -/
def Stmt.unlinked : Stmt → Bool
  | .claimReset _ => false
  | _ => true

theorem Stmt.unlinked_writes {q : Stmt} (unlinked : q.unlinked = true) (db : Database) :
    linksOf (q.writes db) = [] := by
  have updating_nil : ∀ {ρ : Type} (found : Option ρ) (write : ρ → List Write),
      (∀ r, linksOf (write r) = []) → linksOf (updating found write) = [] := by
    intro ρ found write each
    cases found with
    | none => rfl
    | some r => exact each r
  cases q with
  | claimReset hash => cases unlinked
  | insertToken row =>
    simp only [Stmt.writes]
    split <;> rfl
  | insertCode userId hash =>
    simp only [Stmt.writes]
    split <;> rfl
  | enableMfa userId proof =>
    refine updating_nil _ _ fun u => ?_
    split <;> rfl
  | markUsed | revokeRow | replacePassword | setEnabled | setPending | clearPending | disableMfa
  | spendCode | clearExpired | rehash => exact updating_nil _ _ fun _ => rfl
  | _ => rfl

abbrev Noted {α : Type} (p : Program resetting Failure α) (k : Progress)
    (post : Except Failure α → Progress → Prop) : Prop :=
  Sound (D := resetting) Database.Keyed Claim p k post

/-- What the result of a transaction says about it. -/
def Outcome.Fits : Outcome → Progress → Prop
  | .unknown, k => k = .fresh
  | .requested userId found, k => k = .issued userId found
  | .completed hash, k => k = .claimed hash

section Calls

variable {env : Env} {mint : ID} {db : Database} {writes : List Write} {held : List Key}

theorem Claim.extend {hash : ID} (claim : Claim (.claimed hash) db writes held) {more : List Write}
    (none : linksOf more = []) (keys : List Key) :
    Claim (.claimed hash) db (writes ++ more) (held ++ keys) := by
  have same : linksOf (writes ++ more) = linksOf writes := by simp [none]
  refine ⟨fun row member => ?_, ?_⟩
  · rw [same] at member
    obtain ⟨locked, version⟩ := claim.rows row member
    exact ⟨mem_append_left _ locked, version⟩
  · obtain ⟨r, there, unused, rows⟩ := claim.progress
    exact ⟨r, there, unused, same.trans rows⟩

abbrev Unlinked {α : Type} (p : Tx α) : Prop :=
  Program.Only (D := dialect) (fun q => Stmt.unlinked q = true) p

theorem noted_unlinked {α : Type} {p : Tx α} (unlinked : Unlinked p) (hash : ID) :
    Noted (sent p) (.claimed hash) fun _ k => k = .claimed hash := by
  induction p with
  | done a => rfl
  | fail e => rfl
  | call q rest ih =>
    refine ⟨fun db writes held _ claim => ⟨.claimed hash, ?_, ih _ (unlinked.2 _)⟩,
      fun _ skips => by cases skips⟩
    exact claim.extend (Stmt.unlinked_writes unlinked.1 _) _

theorem unlinked_revoke (scope : Scope) (reason : String) :
    Unlinked (revoke scope reason).void := by
  have rows : ∀ ids, Unlinked (revokeRows scope reason ids) := by
    intro ids
    induction ids with
    | nil => trivial
    | cons id ids ih =>
      exact Program.Only.bind (p := statement (.revokeRow scope id reason))
        ⟨rfl, fun _ => trivial⟩ fun _ => Program.Only.bind ih fun _ => trivial
  exact Program.Only.bind ⟨rfl, rows⟩ fun _ => trivial

variable (userId hash : ID) (found : List ID)

theorem unlinked_applyNewPassword (newPassword existingHash : String) :
    Unlinked (applyNewPassword env userId newPassword existingHash) := by
  refine Program.Only.bind ⟨rfl, fun _ => trivial⟩ fun previous => ?_
  cases env.validatePassword newPassword previous with
  | some reason => trivial
  | none => exact Program.Only.ite (fun _ => trivial) ⟨rfl, fun _ => trivial⟩

theorem unlinked_currentHash : Unlinked (currentHash userId) := by
  refine ⟨rfl, fun hash => ?_⟩
  cases hash <;> trivial

theorem sent_bind {α β : Type} (p : Tx α) (f : α → Tx β) :
    sent (p >>= f) = sent p >>= fun a => sent (f a) := by
  change sent (p.bind f) = (sent p).bind fun a => sent (f a)
  induction p with
  | done a => rfl
  | fail e => rfl
  | call q rest ih => exact congrArg (Program.call _) (funext ih)

theorem noted_claim :
    Noted (query (.stmt (.claimReset hash))) .fresh fun r k => ∀ claimed : Option ID,
      r = .ok claimed → claimed.isSome = true → k = .claimed hash := by
  refine ⟨fun db writes held _ claim => ?_, fun _ skips => by cases skips⟩
  obtain rfl : writes = [] := claim.progress
  change ∃ k', Claim k' db (updating (db.claimable hash) fun r => [.reset { r with used := true }])
    (held ++ locking (db.claimable hash) (.reset hash)) ∧ ∀ claimed : Option ID,
      Except.ok ((db.claimable hash).map ResetToken.userId) = Except.ok claimed → _
  cases found : db.claimable hash with
  | none =>
    refine ⟨.fresh, ⟨by simp [updating, linksOf], rfl⟩, fun claimed same some => ?_⟩
    cases same
    cases some
  | some r =>
    obtain ⟨there, usable⟩ := Option.filter_eq_some_iff.mp found
    have named : r.tokenHash = hash := key_of_find there
    have unused : r.used = false := by
      rw [Bool.and_eq_true] at usable
      simpa using usable.1
    refine ⟨.claimed hash, ⟨fun row member => ?_, r, there, unused, rfl⟩, fun _ _ _ => rfl⟩
    obtain rfl := mem_singleton.mp member
    refine ⟨?_, .inl ⟨r, ?_, rfl⟩⟩
    · simp [locking, named]
    · simpa [named] using there

/-- **A completion** claims the token that it names. -/
theorem noted_complete (token : ID) (newPassword : String) :
    Noted ((ResetCall.complete token newPassword).tx env mint) .fresh (Promised Outcome.Fits) := by
  have claims : Noted (sent (completePasswordReset env token newPassword)) .fresh
      fun r k => ∀ a, r = .ok a → k = .claimed (env.hash token) := by
    unfold completePasswordReset
    rw [sent_bind]
    refine Sound.bind (noted_claim (env.hash token)) (fun claimed k after => ?_)
      fun e k _ a ok => by cases ok
    cases claimed with
    | none => exact fun a ok => by cases ok
    | some userId =>
      rw [after (some userId) rfl rfl]
      refine Sound.mono (noted_unlinked ?_ _) fun _ _ same _ _ => same
      exact (unlinked_currentHash userId).bind fun hash =>
        (unlinked_applyNewPassword userId newPassword hash).bind fun _ => unlinked_revoke _ _
  refine Sound.bind claims (fun a k claimed => ?_) fun e k _ a ok => by cases ok
  rintro outcome ⟨⟩
  exact claimed a rfl

theorem noted_outstanding :
    Noted (query (.outstanding userId)) .fresh fun r k => ∀ found : List ID,
      r = .ok found → k = .retiring userId found found := by
  refine ⟨fun db writes held keyed claim => ?_, fun _ skips => by cases skips⟩
  obtain rfl : writes = [] := claim.progress
  refine ⟨.retiring userId ((db.resets.filter fun r => r.open userId).map ResetToken.tokenHash)
    ((db.resets.filter fun r => r.open userId).map ResetToken.tokenHash),
    ⟨fun row member => (by cases member), [], rfl, ?_⟩, fun found same => ?_⟩
  · refine ⟨fun _ => id, fun hash member => ?_, by simp, fun _ => .inl⟩
    obtain ⟨r, matching, rfl⟩ := mem_map.mp member
    obtain ⟨there, usable⟩ := mem_filter.mp matching
    refine ⟨r, find_of_mem keyed there, ?_⟩
    simp only [ResetToken.open, Bool.and_eq_true, beq_iff_eq] at usable
    exact usable.1
  · cases same
    rfl

theorem noted_retire (todo : List ID) :
    Noted (query (.retire userId hash)) (.retiring userId found (hash :: todo))
      fun _ k => k = .retiring userId found todo := by
  refine ⟨fun db writes held _ claim => ?_, fun _ skips => by cases skips⟩
  obtain ⟨retired, rfl, retiring⟩ := claim.progress
  have here : hash ∈ found := retiring.left hash mem_cons_self
  obtain ⟨old, there, owner⟩ := retiring.known hash here
  have rows := claim.rows
  rw [linksOf_reset] at rows
  have left : ∀ other ∈ todo, other ∈ found :=
    fun other member => retiring.left other (mem_cons_of_mem _ member)
  -- what was spent stays so, if this token is spent after the statement
  have spent : ∀ now : List ResetToken, (∀ row ∈ retired, row ∈ now) →
      ((∃ row ∈ now, row.tokenHash = hash) ∨ old.used = true) → ∀ other ∈ found, other ∈ todo ∨
        (∃ row ∈ now, row.tokenHash = other) ∨ ∃ r, db.reset other = some r ∧ r.used = true := by
    intro now kept this other member
    rcases retiring.spent other member with waits | ⟨row, written, named⟩ | used
    · rcases mem_cons.mp waits with rfl | later
      · exact .inr (this.imp_right fun used => ⟨old, there, used⟩)
      · exact .inl later
    · exact .inr (.inl ⟨row, kept row written, named⟩)
    · exact .inr (.inr used)
  change ∃ k', Claim k' db (retired.map Write.reset ++ updating
      ((resetting.replay (retired.map Write.reset) db).retirable userId hash) fun r =>
        [.reset { r with used := true }])
    (held ++ locking ((resetting.replay (retired.map Write.reset) db).retirable userId hash)
      (.reset hash)) ∧ k' = _
  refine ⟨_, ?_, rfl⟩
  rcases reset_replay (retired.map Write.reset) db hash with
    ⟨same, others⟩ | ⟨row, member, named, now⟩
  · cases used : old.used with
    | true =>
      have gone : (resetting.replay (retired.map Write.reset) db).retirable userId hash = none := by
        rw [retirable, same, there]
        simp [ResetToken.open, used]
      rw [gone]
      simp only [updating, locking, Option.elim_none, append_nil]
      exact ⟨claim.rows, retired, rfl, left, retiring.known, retiring.rows,
        spent retired (fun _ => id) (.inr used)⟩
    | false =>
      have found' : (resetting.replay (retired.map Write.reset) db).retirable userId hash =
          some old := by
        rw [retirable, same, there]
        simp [ResetToken.open, used, owner]
      have named : old.tokenHash = hash := key_of_find there
      rw [found']
      simp only [updating, locking, Option.elim_some]
      refine ⟨fun row member => ?_, retired ++ [{ old with used := true }], by simp, left,
        retiring.known, fun row member => ?_, spent _ (fun _ => mem_append_left _)
          (.inl ⟨_, mem_append_right _ mem_cons_self, named⟩)⟩
      · rw [linksOf_append, linksOf_reset] at member
        rcases mem_append.mp member with earlier | last
        · obtain ⟨locked, version⟩ := rows row earlier
          exact ⟨mem_append_left _ locked, version⟩
        · obtain rfl := mem_singleton.mp last
          refine ⟨?_, .inl ⟨old, ?_, rfl⟩⟩
          · simp [named]
          · simpa [named] using there
      · rcases mem_append.mp member with earlier | last
        · exact retiring.rows row earlier
        · obtain rfl := mem_singleton.mp last
          exact ⟨named.symm ▸ here, rfl, owner⟩
  · rw [linksOf_reset] at member
    have gone : (resetting.replay (retired.map Write.reset) db).retirable userId hash = none := by
      rw [retirable, now]
      simp [ResetToken.open, (retiring.rows row member).2.1]
    rw [gone]
    simp only [updating, locking, Option.elim_none, append_nil]
    exact ⟨claim.rows, retired, rfl, left, retiring.known, retiring.rows,
      spent retired (fun _ => id) (.inl ⟨row, member, named⟩)⟩

theorem noted_retireRows (todo : List ID) :
    Noted (retireRows userId todo) (.retiring userId found todo) fun r k =>
      ∀ a, r = .ok a → k = .retiring userId found [] := by
  induction todo with
  | nil => exact fun _ _ => rfl
  | cons hash todo ih =>
    refine Sound.bind (noted_retire userId hash found todo) (fun _ k same => ?_)
      fun e k _ a ok => by cases ok
    rw [same]
    exact ih

theorem noted_insert :
    Noted (query (.insertReset hash userId)) (.retiring userId found []) fun r k =>
      ∀ inserted : Bool, r = .ok inserted → inserted = true → k = .issued userId found := by
  refine ⟨fun db writes held _ claim => ?_, fun _ skips => by cases skips⟩
  obtain ⟨retired, rfl, retiring⟩ := claim.progress
  have rows := claim.rows
  rw [linksOf_reset] at rows
  set view := resetting.replay (retired.map Write.reset) db with viewIs
  change ∃ k', Claim k' db (retired.map Write.reset ++ if view.admitsReset hash userId = true then
      [.reset { tokenHash := hash, userId, expiresAt := view.clock + resetTtl }] else [])
    (held ++ [.reset hash]) ∧ ∀ inserted : Bool,
      Except.ok (view.admitsReset hash userId) = Except.ok inserted → _
  cases admitted : view.admitsReset hash userId with
  | false =>
    refine ⟨.retiring userId found [], ⟨fun row member => ?_, retired, by simp, retiring⟩,
      fun inserted same accepted => ?_⟩
    · rw [if_neg Bool.false_ne_true, append_nil, linksOf_reset] at member
      obtain ⟨locked, version⟩ := rows row member
      exact ⟨mem_append_left _ locked, version⟩
    · cases same
      cases accepted
  | true =>
    have absent : db.reset hash = none := by
      have gone := (Bool.and_eq_true_iff.mp admitted).1
      rw [Option.isNone_iff_eq_none] at gone
      rcases reset_replay (retired.map Write.reset) db hash with ⟨same, -⟩ | ⟨row, -, -, there⟩
      · rw [← same]
        exact gone
      · cases there.symm.trans gone
    rw [if_pos rfl]
    refine ⟨.issued userId found, ⟨fun row member => ?_, retired,
      { tokenHash := hash, userId, expiresAt := view.clock + resetTtl }, by simp, retiring, rfl,
      rfl, absent⟩, fun _ _ _ => rfl⟩
    rw [linksOf_append, linksOf_reset] at member
    rcases mem_append.mp member with earlier | last
    · obtain ⟨locked, version⟩ := rows row earlier
      exact ⟨mem_append_left _ locked, version⟩
    · obtain rfl := mem_singleton.mp last
      exact ⟨mem_append_right _ mem_cons_self, .inr absent⟩

/-- **A request** marks what it has found, and issues one more. -/
theorem noted_request (email : String) :
    Noted ((ResetCall.request email).tx env mint) .fresh (Promised Outcome.Fits) := by
  have knows : Noted (query (.findIdByEmail (env.lower email))) .fresh fun _ k => k = .fresh := by
    refine ⟨fun db writes held _ claim => ⟨.fresh, ?_, rfl⟩, fun _ skips => by cases skips⟩
    obtain rfl : writes = [] := claim.progress
    exact ⟨fun row member => (by cases member), rfl⟩
  refine Sound.bind knows (fun userId k same => ?_) fun e k _ a ok => by cases ok
  rw [same]
  cases userId with
  | none => exact fun a ok => by cases ok; rfl
  | some userId =>
    refine Sound.bind (noted_outstanding userId) (fun found k same => ?_)
      fun e k _ a ok => by cases ok
    rw [same found rfl]
    refine Sound.bind (noted_retireRows userId found found) (fun _ k same => ?_)
      fun e k _ a ok => by cases ok
    rw [same () rfl]
    refine Sound.bind (noted_insert userId (env.hash mint) found) (fun inserted k same => ?_)
      fun e k _ a ok => by cases ok
    cases inserted with
    | false => exact fun a ok => by cases ok
    | true =>
      rintro outcome ⟨⟩
      exact same true rfl rfl

theorem noted_tx (call : ResetCall) : Noted (call.tx env mint) .fresh (Promised Outcome.Fits) := by
  cases call with
  | request email => exact noted_request email
  | complete token newPassword => exact noted_complete token newPassword

end Calls

variable {ι : Type}

def Database.SingleLink (db : Database) : Prop :=
  ∀ r ∈ db.resets, ∀ t ∈ db.resets, r.userId = t.userId → r.used = false → t.used = false → r = t

instance (db : Database) : Decidable db.SingleLink :=
  inferInstanceAs (Decidable (∀ r ∈ db.resets, ∀ t ∈ db.resets, r.userId = t.userId →
    r.used = false → t.used = false → r = t))

/-- A request commits and leaves a link open that it has not seen. -/
def Resets.Overlooks (s : Resets ι) : ResetTurn ι → Prop
  | .run i => ∃ userId found, s.commits i = [.requested userId found] ∧
      ∃ r ∈ s.tx.db.resets, r.open userId = true ∧ r.tokenHash ∉ found
  | _ => False

/-- What holds throughout a run: every call is somewhere on its way, and a token that a
completion has committed was used, by this one only. -/
structure Resets.Tidy (s : Resets ι) : Prop where
  kept : s.tx.Kept Database.Keyed Claim Outcome.Fits
  spent : ∀ hash, .completed hash ∈ s.committed → ∃ r, s.tx.db.reset hash = some r ∧ r.used = true
  once : ∀ hash, s.committed.count (.completed hash) ≤ 1

section Links

variable {db : Database} {writes : List Write} {held : List Key}

theorem Database.Keyed.mem_replay (keyed : db.Keyed) {r : ResetToken}
    (member : r ∈ resets (resetting.replay writes db)) : r ∈ linksOf writes ∨
      r ∈ db.resets ∧ ∀ row ∈ linksOf writes, row.tokenHash ≠ r.tokenHash := by
  have there : reset (resetting.replay writes db) r.tokenHash = some r :=
    find_of_mem (keyed.replay writes) member
  rcases reset_replay writes db r.tokenHash with ⟨same, others⟩ | ⟨row, written, -, found⟩
  · exact .inr ⟨mem_of_find (same.symm.trans there), others⟩
  · cases found.symm.trans there
    exact .inl written

theorem Database.Keyed.single_replay (keyed : db.Keyed) (single : db.SingleLink)
    (used : ∀ row ∈ linksOf writes, row.used = true) :
    Database.SingleLink (resetting.replay writes db) := by
  have old : ∀ r ∈ resets (resetting.replay writes db), r.used = false → r ∈ db.resets := by
    intro r member unused
    rcases keyed.mem_replay member with written | ⟨there, -⟩
    · cases unused.symm.trans (used r written)
    · exact there
  intro r member t member' same unused unused'
  exact single r (old r member unused) t (old t member' unused') same unused unused'

/-- A request that commits leaves one token, exactly if it has found all there are. -/
theorem Claim.single_iff (keyed : db.Keyed) (single : db.SingleLink) {userId : ID}
    {found : List ID} (claim : Claim (.issued userId found) db writes held) :
    Database.SingleLink (resetting.replay writes db) ↔
      ¬ ∃ r ∈ db.resets, r.open userId = true ∧ r.tokenHash ∉ found := by
  obtain ⟨retired, new, rfl, retiring, owner, unused, absent⟩ := claim.progress
  have links : linksOf ((retired ++ [new]).map Write.reset) = retired ++ [new] := linksOf_reset _
  constructor
  · rintro alone ⟨r, there, usable, missed⟩
    simp only [ResetToken.open, Bool.and_eq_true, beq_iff_eq, Bool.not_eq_true'] at usable
    have stored : db.reset r.tokenHash = some r := find_of_mem keyed there
    have kept : r ∈ resets (resetting.replay ((retired ++ [new]).map Write.reset) db) := by
      rcases reset_replay ((retired ++ [new]).map Write.reset) db r.tokenHash with
        ⟨same, -⟩ | ⟨row, written, named, -⟩
      · exact mem_of_find (same.trans stored)
      · rw [links] at written
        rcases mem_append.mp written with old | last
        · exact (missed (named ▸ (retiring.rows row old).1)).elim
        · rw [mem_singleton.mp last] at named
          cases (named ▸ absent).symm.trans stored
    have added : new ∈ resets (resetting.replay ((retired ++ [new]).map Write.reset) db) := by
      rcases reset_replay ((retired ++ [new]).map Write.reset) db new.tokenHash with
        ⟨-, others⟩ | ⟨row, written, named, there'⟩
      · exact (others new (by rw [links]; simp) rfl).elim
      · rw [links] at written
        rcases mem_append.mp written with old | last
        · obtain ⟨t, known, -⟩ := retiring.known _ (retiring.rows row old).1
          cases (named ▸ absent).symm.trans known
        · rw [mem_singleton.mp last] at there'
          exact mem_of_find there'
    have same := alone r kept new added (usable.1.trans owner.symm) usable.2 unused
    rw [same] at stored
    cases absent.symm.trans stored
  · intro all
    have versions : ∀ r ∈ resets (resetting.replay ((retired ++ [new]).map Write.reset) db),
        r.used = false → r = new ∨ r ∈ db.resets ∧ r.userId ≠ userId := by
      intro r member usable
      rcases keyed.mem_replay member with written | ⟨there, others⟩
      · rw [links] at written
        rcases mem_append.mp written with old | last
        · cases usable.symm.trans (retiring.rows r old).2.1
        · exact .inl (mem_singleton.mp last)
      · refine .inr ⟨there, fun mine => all ⟨r, there, ?_, fun seen => ?_⟩⟩
        · simp [ResetToken.open, mine, usable]
        · rcases retiring.spent _ seen with left | ⟨row, written, named⟩ | ⟨t, known, used⟩
          · cases left
          · exact others row (by simp [written]) named
          · cases (find_of_mem keyed there).symm.trans known
            cases usable.symm.trans used
    intro r member t member' same usable usable'
    rcases versions r member usable with rfl | ⟨there, other⟩ <;>
      rcases versions t member' usable' with rfl | ⟨there', other'⟩
    · rfl
    · exact (other' (same.symm.trans owner)).elim
    · exact (other (same.trans owner)).elim
    · exact single r there t there' same usable usable'

theorem credentials_reset (rows : List ResetToken) (db : Database) :
    credentials (resetting.replay (rows.map Write.reset) db) = db.credentials := by
  induction rows generalizing db with
  | nil => rfl
  | cons row rows ih => exact ih _

end Links

namespace Resets

/-- What a turn can do. -/
inductive Turns [DecidableEq ι] (env : Env) (s : Resets ι) : ResetTurn ι → Resets ι → Prop where
  | idle {turn : ResetTurn ι} (stops : ∀ i, turn = .run i → s.commits i = []) : Turns env s turn s
  | start {i : ι} {call : ResetCall} (free : s.tx.sessions i = none) :
      Turns env s (.start i call)
        { s with
          tx := s.tx.set i (some { program := call.tx env s.drawn })
          drawn := s.drawn + 1 }
  | exec {i : ι} {session : Session resetting Failure Outcome} {q : Query}
      {rest : q.Answer → Program resetting Failure Outcome}
      (active : s.tx.sessions i = some session)
      (calls : session.program = .call q rest) (free : ¬ s.tx.Blocked i session q)
      (stops : s.commits i = []) :
      Turns env s (.run i) { s with tx := s.tx.set i (some (session.exec s.tx.db q rest)) }
  | commit {i : ι} {session : Session resetting Failure Outcome} {outcome : Outcome}
      (active : s.tx.sessions i = some session) (finished : session.program = .done outcome)
      (ends : s.commits i = [outcome]) :
      Turns env s (.run i)
        { s with
          tx := ⟨session.view s.tx.db, Function.update s.tx.sessions i none⟩
          committed := s.committed ++ [outcome] }
  | abort {i : ι} {turn : ResetTurn ι} (stops : ∀ i, turn = .run i → s.commits i = []) :
      Turns env s turn { s with tx := s.tx.set i none }
  | tick {clock : Time} :
      Turns env s (.tick clock) { s with tx := { s.tx with db := { s.tx.db with clock := clock } } }

theorem turns_step [Fintype ι] [DecidableEq ι] (env : Env) (s : Resets ι) (turn : ResetTurn ι) :
    Turns env s turn (s.step env turn) := by
  cases turn with
  | start i call =>
    simp only [step]
    cases free : s.tx.sessions i with
    | none => exact .start free
    | some _ => exact .idle fun _ => nofun
  | abort i => exact .abort fun _ => nofun
  | tick clock => exact .tick
  | run i =>
    simp only [step]
    cases active : s.tx.sessions i with
    | none =>
      have stops : s.commits i = [] := by simp only [commits, active]
      rw [stops, append_nil, Config.advance_idle active]
      exact .idle fun j same => by cases same; exact stops
    | some session =>
      obtain ⟨program, writes, held⟩ := session
      cases program with
      | done outcome =>
        have ends : s.commits i = [outcome] := by simp only [commits, active]
        rw [ends, Config.advance_done active rfl]
        exact .commit active rfl ends
      | fail e =>
        have stops : s.commits i = [] := by simp only [commits, active]
        rw [stops, append_nil]
        simp only [Config.advance, active, Option.map_none]
        exact .abort fun j same => by cases same; exact stops
      | call q rest =>
        have stops : s.commits i = [] := by simp only [commits, active]
        rw [stops, append_nil]
        by_cases blocked : s.tx.Blocked i ⟨.call q rest, writes, held⟩ q
        · simp only [Config.advance, active, blocked, ↓reduceIte]
          exact .idle fun j same => by cases same; exact stops
        · rw [Config.advance_call active rfl blocked]
          exact .exec active rfl blocked stops

section Steps

variable {s : Resets ι} {env : Env}

theorem Tidy.disturbs (tidy : s.Tidy) {i : ι} {session : Session resetting Failure Outcome}
    {outcome : Outcome} (active : s.tx.sessions i = some session)
    (finished : session.program = .done outcome) : ∃ k,
    Claim k s.tx.db session.writes session.held ∧
      outcome.Fits k ∧ Disturbs [] s.tx.db (session.view s.tx.db) := by
  obtain ⟨k, claim, fits⟩ := tidy.kept.finished active finished
  exact ⟨k, claim, fits, claim.disturbs nofun⟩

variable [Fintype ι] [DecidableEq ι]

/-- **One turn.** -/
theorem Tidy.step (tidy : s.Tidy) (turn : ResetTurn ι) : (s.step env turn).Tidy := by
  have turns := turns_step env s turn
  generalize s.step env turn = after at turns
  cases turns with
  | idle => exact tidy
  | start free =>
    refine ⟨tidy.kept.start _ (fun db _ => ?_) (noted_tx _), tidy.spent, tidy.once⟩
    exact ⟨fun row member => (by cases member), rfl⟩
  | exec active calls free => exact ⟨tidy.kept.exec active calls free, tidy.spent, tidy.once⟩
  | abort => exact ⟨tidy.kept.abort _, tidy.spent, tidy.once⟩
  | @tick clock =>
    refine ⟨tidy.kept.shift tidy.kept.inv fun i session k _ claim => ?_, tidy.spent, tidy.once⟩
    exact claim.stable ⟨fun hash r there => ⟨r, there, rfl, id, fun _ => rfl⟩,
      fun hash absent _ => absent⟩
  | @commit i session outcome active finished ends =>
    obtain ⟨k, claim, fits, disturbs⟩ := tidy.disturbs active finished
    have agreement : Agreement (D := resetting) Database.Keyed Disturbs Claim Outcome.Fits :=
      { stable := fun k db db' writes held _ claim disturbs => claim.stable disturbs
        commit := fun a k db writes held keyed claim _ =>
          ⟨keyed.replay writes, fun others apart => claim.disturbs apart⟩ }
    have lasts : ∀ hash, .completed hash ∈ s.committed →
        ∃ r, reset (session.view s.tx.db) hash = some r ∧ r.used = true := by
      intro hash earlier
      obtain ⟨r, there, used⟩ := tidy.spent hash earlier
      obtain ⟨r', there', -, kept, -⟩ := disturbs.stays hash r there
      exact ⟨r', there', kept used⟩
    refine ⟨tidy.kept.commit agreement active finished, fun hash member => ?_, fun hash => ?_⟩
    · rcases mem_append.mp member with earlier | last
      · exact lasts hash earlier
      · rw [← mem_singleton.mp last] at fits
        obtain ⟨r, there, -, rows⟩ := (fits ▸ claim).progress
        have named : r.tokenHash = hash := key_of_find there
        rcases reset_replay session.writes s.tx.db hash with ⟨-, others⟩ | ⟨row, member, -, found⟩
        · exact (others { r with used := true } (by simp [rows]) named).elim
        · rw [rows] at member
          exact ⟨row, found, by rw [mem_singleton.mp member]⟩
    · rw [count_append]
      by_cases same : outcome = .completed hash
      · -- the token could still be used, so nobody has committed it
        rw [same] at fits
        obtain ⟨r, there, unused, -⟩ := (fits ▸ claim).progress
        have absent : .completed hash ∉ s.committed := fun earlier => by
          obtain ⟨r', there', used⟩ := tidy.spent hash earlier
          cases there.symm.trans there'
          cases unused.symm.trans used
        rw [count_eq_zero_of_not_mem absent, same]
        simp
      · have none : List.count (.completed hash) [outcome] = 0 :=
          count_eq_zero_of_not_mem fun member => same (mem_singleton.mp member).symm
        rw [none]
        exact tidy.once hash

omit [Fintype ι] [DecidableEq ι] in
theorem not_overlooks {turn : ResetTurn ι} (stops : ∀ i, turn = .run i → s.commits i = []) :
    ¬ s.Overlooks turn := by
  cases turn with
  | run i =>
    rintro ⟨userId, found, commits, -⟩
    cases (stops i rfl).symm.trans commits
  | _ => exact id

/-- **A turn leaves a second token** exactly if it commits a request beside one. -/
theorem Tidy.single_iff (tidy : s.Tidy) (single : s.tx.db.SingleLink) (turn : ResetTurn ι) :
    (s.step env turn).tx.db.SingleLink ↔ ¬ s.Overlooks turn := by
  have turns := turns_step env s turn
  generalize s.step env turn = after at turns
  cases turns with
  | idle stops => exact iff_of_true single (not_overlooks stops)
  | start free => exact iff_of_true single id
  | exec active calls free stops =>
    exact iff_of_true single (not_overlooks fun j same => by cases same; exact stops)
  | abort stops => exact iff_of_true single (not_overlooks stops)
  | tick => exact iff_of_true single id
  | @commit i session outcome active finished ends =>
    obtain ⟨k, claim, fits, -⟩ := tidy.disturbs active finished
    have overlooks : s.Overlooks (.run i) ↔ ∃ userId found, outcome = .requested userId found ∧
        ∃ r ∈ s.tx.db.resets, r.open userId = true ∧ r.tokenHash ∉ found := by
      simp only [Overlooks, ends, List.cons.injEq, and_true]
    rw [overlooks]
    cases outcome with
    | requested userId found =>
      rw [fits] at claim
      refine (claim.single_iff tidy.kept.inv single).trans (not_congr ?_)
      constructor
      · intro missed
        exact ⟨userId, found, rfl, missed⟩
      · intro ⟨userId', found', same, missed⟩
        cases same
        exact missed
    | unknown =>
      rw [fits] at claim
      refine iff_of_true (tidy.kept.inv.single_replay single ?_) nofun
      rw [show session.writes = [] from claim.progress]
      exact nofun
    | completed hash =>
      rw [fits] at claim
      obtain ⟨r, -, -, rows⟩ := claim.progress
      refine iff_of_true (tidy.kept.inv.single_replay single ?_) nofun
      rw [rows]
      intro row member
      rw [mem_singleton.mp member]

/-- **Only a completion changes a password.** -/
theorem Tidy.changes (tidy : s.Tidy) {turn : ResetTurn ι}
    (changed : (s.step env turn).tx.db.credentials ≠ s.tx.db.credentials) :
    ∃ i hash, turn = .run i ∧ s.commits i = [.completed hash] := by
  have turns := turns_step env s turn
  generalize s.step env turn = after at turns changed
  cases turns with
  | @commit i session outcome active finished ends =>
    obtain ⟨k, claim, fits, -⟩ := tidy.disturbs active finished
    cases outcome with
    | completed hash => exact ⟨i, hash, rfl, ends⟩
    | unknown =>
      rw [fits] at claim
      refine absurd ?_ changed
      simp only [Session.view, show session.writes = [] from claim.progress]
      rfl
    | requested userId found =>
      rw [fits] at claim
      obtain ⟨retired, new, rows, -⟩ := claim.progress
      refine absurd ?_ changed
      simp only [Session.view, rows]
      exact credentials_reset _ _
  | _ => exact absurd rfl changed

theorem undone {turn : ResetTurn ι} (stops : ∀ i, turn = .run i → s.commits i = []) :
    (s.step env turn).tx.db.resets = s.tx.db.resets ∧
      (s.step env turn).tx.db.credentials = s.tx.db.credentials := by
  have turns := turns_step env s turn
  generalize s.step env turn = after at turns
  cases turns with
  | commit active finished ends => cases (stops _ rfl).symm.trans ends
  | _ => exact ⟨rfl, rfl⟩

end Steps

/-- What the tables and the committed calls show: each token was used once, only its use
changes a password, a failure leaves the tokens and passwords as they were, and no user
has two links. -/
structure SingleUse [Fintype ι] [DecidableEq ι] (env : Env) (s : Resets ι) : Prop where
  once : ∀ hash, s.committed.count (.completed hash) ≤ 1
  changes : ∀ turn, (s.step env turn).tx.db.credentials ≠ s.tx.db.credentials →
    ∃ i hash, turn = .run i ∧ s.commits i = [.completed hash]
  fails : ∀ i session e, s.tx.sessions i = some session → session.program = .fail e →
    s.commits i = []
  undone : ∀ turn, (∀ i, turn = .run i → s.commits i = []) →
    (s.step env turn).tx.db.resets = s.tx.db.resets ∧
      (s.step env turn).tx.db.credentials = s.tx.db.credentials
  single : s.tx.db.SingleLink

section Runs

variable [Fintype ι] [DecidableEq ι] {env : Env}

theorem Tidy.singleUse_iff {s : Resets ι} (tidy : s.Tidy) :
    s.SingleUse env ↔ s.tx.db.SingleLink := by
  refine ⟨SingleUse.single, fun single => ?_⟩
  refine ⟨tidy.once, fun _ => tidy.changes, fun i session e active failed => ?_,
    fun _ => undone, single⟩
  obtain ⟨program, writes, held⟩ := session
  cases failed
  simp only [commits, active]

theorem tidy_reachable {accounts : Database} {s : Resets ι}
    (reached : (System.ofFunction (idle accounts) (step env)).Reachable s) : s.Tidy := by
  refine System.Reachable.invariant (fun s initial => ?_) (fun s turn t tidy taken => ?_) reached
  · obtain rfl : s = idle accounts := initial
    have keyed : Database.Keyed { accounts with resets := [] } := nodup_nil
    exact ⟨Config.kept_idle keyed, nofun, fun _ => Nat.zero_le 1⟩
  · obtain rfl : t = s.step env turn := taken
    exact tidy.step turn

end Runs

end Resets

/-- **Reset links are single and used once** throughout a run exactly if no request of the
run commits beside a link that it has not found. -/
theorem single_use_throughout_iff [Fintype ι] [DecidableEq ι] (env : Env) (accounts : Database)
    (turns : List (ResetTurn ι)) :
    (∀ front, front <+: turns → (front.foldl (Resets.step env) (.idle accounts)).SingleUse env) ↔
      ∀ front turn, front ++ [turn] <+: turns →
        ¬ (front.foldl (Resets.step env) (.idle accounts)).Overlooks turn := by
  refine System.throughout_iff ?_ (fun s turn reached holds => ?_) turns
  · have idle : (System.ofFunction (Resets.idle accounts) (Resets.step env)).Reachable
        (Resets.idle accounts : Resets ι) := .init rfl
    exact (Resets.tidy_reachable idle).singleUse_iff.mpr nofun
  · have tidy := Resets.tidy_reachable reached
    exact (tidy.step turn).singleUse_iff.trans (tidy.single_iff holds.single turn)

/-- Two requests of one user: neither finds the other's token. -/
def twoRequests : List (ResetTurn Bool) :=
  [.start true (.request "ada@example.org"), .start false (.request "ada@example.org"),
    .run true, .run false, .run true, .run false, .run true, .run true, .run false, .run false]

/-- Both tokens can be used. -/
theorem two_links : ¬ ∀ front, front <+: twoRequests →
    (front.foldl (Resets.step sampleEnv)
      (.idle { users := [{ id := 7, lowerEmail := "ada@example.org" }] })).SingleUse sampleEnv := by
  have two : ¬ Database.SingleLink (twoRequests.foldl (Resets.step sampleEnv)
      (.idle { users := [{ id := 7, lowerEmail := "ada@example.org" }] })).tx.db := by
    decide
  intro holds
  exact two (holds twoRequests (prefix_refl _)).single

end Souq.Identity
