import Mathlib.Data.List.AList
import Mathlib.Data.List.Induction

/-!
# Sessions of the SFTP gateway

The bookkeeping of `sftp-gateway/session.go`: the open sessions by id, how many of them each user
has, and how many there are. The two counters are kept beside the map of sessions and decide whether
another session is let in.
-/

namespace Insula.SessionLimits

structure Session where
  id : String
  username : String
  maxConcurrentSessions : ℤ
deriving DecidableEq

structure SessionManager where
  sessions : AList fun _ : String => Session
  byUser : AList fun _ : String => ℤ
  total : ℤ
  maxTotal : ℤ

def newSessionManager (maxTotal : ℤ) : SessionManager := ⟨∅, ∅, 0, maxTotal⟩

def perUserMax (sess : Session) : ℤ :=
  if sess.maxConcurrentSessions ≤ 0 then 3 else sess.maxConcurrentSessions

namespace SessionManager

/-- What a map of counters holds for a key that may be missing. -/
def held (m : SessionManager) (username : String) : ℤ := (m.byUser.lookup username).getD 0

def register (m : SessionManager) (sess : Session) : Option String × SessionManager :=
  if m.maxTotal ≤ m.total then (some s!"max total connections ({m.maxTotal}) reached", m)
  else if perUserMax sess ≤ m.held sess.username then
    (some s!"max per-user connections ({perUserMax sess}) reached for {sess.username}", m)
  else
    (none, { m with
      sessions := m.sessions.insert sess.id sess
      byUser := m.byUser.insert sess.username (m.held sess.username + 1)
      total := m.total + 1 })

def unregister (m : SessionManager) (id username : String) : SessionManager :=
  match m.sessions.lookup id with
  | none => m
  | some _ =>
    let byUser := m.byUser.insert username (m.held username - 1)
    { m with
      sessions := m.sessions.erase id
      byUser := if m.held username - 1 ≤ 0 then byUser.erase username else byUser
      total := m.total - 1 }

end SessionManager

open SessionManager

inductive Call
  | register (sess : Session)
  | unregister (id username : String)

def step (m : SessionManager) : Call → SessionManager
  | .register sess => (m.register sess).2
  | .unregister id username => m.unregister id username

def run (maxTotal : ℤ) (calls : List Call) : SessionManager :=
  calls.foldl step (newSessionManager maxTotal)

theorem run_snoc (maxTotal : ℤ) (calls : List Call) (call : Call) :
    run maxTotal (calls ++ [call]) = step (run maxTotal calls) call := by
  rw [run, List.foldl_append, List.foldl_cons, List.foldl_nil, run]

/-! ## What is stored -/

abbrev Entry := (_ : String) × Session

def count (username : String) (entries : List Entry) : ℕ :=
  entries.countP fun e => e.2.username = username

def Ranked : List Entry → Prop
  | [] => True
  | e :: rest => (count e.2.username rest : ℤ) < perUserMax e.2 ∧ Ranked rest

theorem perUserMax_pos (sess : Session) : 0 < perUserMax sess := by
  unfold perUserMax
  split <;> omega

variable {entries : List Entry} {m : SessionManager} {calls : List Call}

theorem count_le_of_sublist {entries' : List Entry} (h : entries.Sublist entries')
    (username : String) : count username entries ≤ count username entries' := h.countP_le

theorem Ranked.sublist {entries' : List Entry} (hr : Ranked entries')
    (h : entries.Sublist entries') : Ranked entries := by
  induction h with
  | slnil => exact hr
  | cons e h ih => exact ih hr.2
  | cons_cons e h ih =>
    have hle := count_le_of_sublist h e.2.username
    have hlt := hr.1
    exact ⟨by omega, ih hr.2⟩

/-- Where all sessions of a user carry one limit, the last of them met it. -/
theorem Ranked.count_le (hr : Ranked entries) {username : String} {limit : ℤ} (hpos : 0 ≤ limit)
    (h : ∀ e ∈ entries, e.2.username = username → perUserMax e.2 = limit) :
    (count username entries : ℤ) ≤ limit := by
  induction entries with
  | nil => exact hpos
  | cons e rest ih =>
    have hrest := ih hr.2 fun x hx => h x (List.mem_cons_of_mem _ hx)
    by_cases he : e.2.username = username
    · have hlt := hr.1
      have hlimit := h e List.mem_cons_self he
      rw [he, hlimit] at hlt
      rw [count, List.countP_cons_of_pos (by simpa using he)]
      rw [count] at hlt
      omega
    · rw [count, List.countP_cons_of_neg (by simpa using he)]
      exact hrest

/-! ## The invariant -/

def counter (n : ℕ) : Option ℤ := if n = 0 then none else some n

theorem counter_getD (n : ℕ) : (counter n).getD 0 = n := by
  unfold counter
  split
  case isTrue h => rw [h]; rfl
  case isFalse => rfl

structure Consistent (m : SessionManager) : Prop where
  total_eq : m.total = m.sessions.entries.length
  byUser_eq : ∀ username, m.byUser.lookup username = counter (count username m.sessions.entries)
  zero_or_le : m.total = 0 ∨ m.total ≤ m.maxTotal
  ranked : Ranked m.sessions.entries

theorem Consistent.held_eq (h : Consistent m) (username : String) :
    m.held username = count username m.sessions.entries := by
  rw [held, h.byUser_eq, counter_getD]

theorem consistent_new (maxTotal : ℤ) : Consistent (newSessionManager maxTotal) :=
  ⟨rfl, fun _ => rfl, Or.inl rfl, trivial⟩

theorem count_cons (username : String) (e : Entry) (entries : List Entry) :
    count username (e :: entries) = count username entries + if e.2.username =
    username then 1 else 0 := by
  rw [count, List.countP_cons, count]
  simp only [decide_eq_true_eq]

theorem counter_succ (n : ℕ) : counter (n + 1) = some (n + 1 : ℤ) := if_neg (Nat.succ_ne_zero n)

theorem Consistent.register (h : Consistent m) {sess : Session} (hnew : sess.id ∉ m.sessions) :
    Consistent (m.register sess).2 := by
  unfold SessionManager.register
  split
  · exact h
  · split
    · exact h
    · have hroom : m.total < m.maxTotal := by omega
      have hrank : m.held sess.username < perUserMax sess := by omega
      have hentries := @AList.entries_insert_of_notMem _ _ _ _ sess _ hnew
      refine ⟨?_, fun username => ?_, ?_, ?_⟩
      · show m.total + 1 = _
        rw [hentries, List.length_cons, h.total_eq]
        rfl
      · show AList.lookup username (m.byUser.insert _ _) = counter (count username _)
        rw [hentries, count_cons]
        by_cases hu : sess.username = username
        · rw [hu, AList.lookup_insert, if_pos rfl, counter_succ, h.held_eq]
        · rw [AList.lookup_insert_ne (Ne.symm hu), if_neg hu, Nat.add_zero, h.byUser_eq]
      · show m.total + 1 = 0 ∨ m.total + 1 ≤ m.maxTotal
        omega
      · rw [hentries]
        exact ⟨by rw [← h.held_eq]; exact hrank, h.ranked⟩

/-- Taking one session out. -/
theorem count_erase (username : String) (e : Entry) (above below : List Entry) :
    count username (above ++ e :: below) =
      count username (above ++ below) + if e.2.username = username then 1 else 0 := by
  have hcons := count_cons username e below
  unfold count at *
  rw [List.countP_append, List.countP_append, hcons, Nat.add_assoc]

theorem Consistent.unregister (h : Consistent m) {id username : String}
    (hown : ∀ sess, m.sessions.lookup id = some sess → sess.username = username) :
    Consistent (m.unregister id username) := by
  unfold SessionManager.unregister
  split
  · exact h
  case h_2 sess hsess =>
    have hmem : id ∈ m.sessions.entries.keys := AList.lookup_isSome.mp (by rw [hsess]; rfl)
    obtain ⟨sess', above, below, -, hsplit, herase⟩ := List.exists_of_kerase hmem
    have hstored : (⟨id, sess'⟩ : Entry) ∈ m.sessions.entries := by
      rw [hsplit]
      exact List.mem_append_right _ List.mem_cons_self
    have huser : sess'.username = username := hown sess' (AList.mem_lookup_iff.mpr hstored)
    have hone := count_erase username ⟨id, sess'⟩ above below
    rw [← hsplit, if_pos huser] at hone
    have hheld := h.held_eq username
    refine ⟨?_, fun other => ?_, ?_, ?_⟩
    · show m.total - 1 = ((List.kerase id m.sessions.entries).length : ℤ)
      have hlength := congrArg List.length hsplit
      rw [List.length_append, List.length_cons] at hlength
      rw [herase, List.length_append, h.total_eq]
      omega
    · show @AList.lookup String (fun _ => ℤ) _ other (if _ then _ else _) =
        counter (count other (List.kerase id _))
      rw [herase]
      by_cases hu : username = other
      · subst hu
        by_cases hzero : count username (above ++ below) = 0
        · rw [if_pos (by omega), AList.lookup_erase, hzero]
          rfl
        · rw [if_neg (by omega), AList.lookup_insert, counter, if_neg hzero]
          congr 1
          omega
      · have hsame := count_erase other ⟨id, sess'⟩ above below
        rw [← hsplit, if_neg (by rw [huser]; exact hu), Nat.add_zero] at hsame
        rw [← hsame, ← h.byUser_eq]
        split
        · rw [AList.lookup_erase_ne (Ne.symm hu), AList.lookup_insert_ne (Ne.symm hu)]
        · rw [AList.lookup_insert_ne (Ne.symm hu)]
    · have hpos : 0 < m.total := by
        rw [h.total_eq, hsplit, List.length_append, List.length_cons]
        omega
      have hle := h.zero_or_le
      show m.total - 1 = 0 ∨ m.total - 1 ≤ m.maxTotal
      omega
    · exact h.ranked.sublist (List.kerase_sublist id m.sessions.entries)

/-! ## Runs -/

def Call.newId : Call → Option String
  | .register sess => some sess.id
  | .unregister _ _ => none

def Call.Fits : Call → Call → Prop
  | .register sess, .unregister id username => sess.id = id → sess.username = username
  | _, _ => True

/-- Sessions have ids of their own, and are given back under their own names. -/
structure Proper (calls : List Call) : Prop where
  ids_nodup : (calls.filterMap Call.newId).Nodup
  own_name : calls.Pairwise Call.Fits

theorem Proper.of_snoc {call : Call} (h : Proper (calls ++ [call])) : Proper calls := by
  have hids := h.ids_nodup
  rw [List.filterMap_append] at hids
  exact ⟨hids.of_append_left, (List.pairwise_append.mp h.own_name).1⟩

/-- The sessions stored are registered ones, under their own ids. -/
def FromCalls (calls : List Call) (m : SessionManager) : Prop :=
  ∀ id sess, m.sessions.lookup id = some sess → sess.id = id ∧ .register sess ∈ calls

theorem FromCalls.step (h : FromCalls calls m) (call : Call) :
    FromCalls (calls ++ [call]) (step m call) := by
  have hkeep : FromCalls (calls ++ [call]) m := fun id sess hsess =>
    ⟨(h id sess hsess).1, List.mem_append_left _ (h id sess hsess).2⟩
  cases call with
  | register sess =>
    rw [SessionLimits.step, SessionManager.register]
    split
    · exact hkeep
    · split
      · exact hkeep
      · intro id other hother
        by_cases hid : id = sess.id
        · rw [hid, AList.lookup_insert] at hother
          cases hother
          exact ⟨hid.symm, List.mem_append_right _ List.mem_cons_self⟩
        · rw [AList.lookup_insert_ne hid] at hother
          exact hkeep id other hother
  | unregister gone username =>
    rw [SessionLimits.step, SessionManager.unregister]
    split
    · exact hkeep
    · intro id other hother
      by_cases hid : id = gone
      · rw [hid, AList.lookup_erase] at hother
        cases hother
      · rw [AList.lookup_erase_ne hid] at hother
        exact hkeep id other hother

theorem run_consistent {maxTotal : ℤ} (h : Proper calls) :
    Consistent (run maxTotal calls) ∧ FromCalls calls (run maxTotal calls) := by
  induction calls using List.reverseRecOn with
  | nil => exact ⟨consistent_new maxTotal, fun _ _ hsess => by cases hsess⟩
  | append_singleton calls call ih =>
    obtain ⟨hconsistent, hfrom⟩ := ih h.of_snoc
    rw [run_snoc]
    refine ⟨?_, hfrom.step call⟩
    cases call with
    | register sess =>
      refine hconsistent.register fun hmem => ?_
      obtain ⟨old, hold⟩ := Option.isSome_iff_exists.mp (AList.lookup_isSome.mpr hmem)
      obtain ⟨hid, hcall⟩ := hfrom _ _ hold
      have hids := h.ids_nodup
      rw [List.filterMap_append, List.nodup_append] at hids
      exact hids.2.2 old.id (List.mem_filterMap.mpr ⟨_, hcall, rfl⟩) sess.id List.mem_cons_self hid
    | unregister id username =>
      refine hconsistent.unregister fun sess hsess => ?_
      obtain ⟨hid, hcall⟩ := hfrom _ _ hsess
      exact (List.pairwise_append.mp h.own_name).2.2 _ hcall _ List.mem_cons_self hid

theorem run_maxTotal (maxTotal : ℤ) (calls : List Call) : (run maxTotal calls).maxTotal = maxTotal := by
  induction calls using List.reverseRecOn with
  | nil => rfl
  | append_singleton calls call ih =>
    rw [run_snoc]
    cases call with
    | register sess =>
      rw [step, SessionManager.register]
      split
      · exact ih
      · split <;> exact ih
    | unregister id username =>
      rw [step, SessionManager.unregister]
      split <;> exact ih

theorem register_failed {sess : Session} {message : String}
    (h : (m.register sess).1 = some message) : (m.register sess).2 = m := by
  unfold SessionManager.register at *
  by_cases htotal : m.maxTotal ≤ m.total
  · rw [if_pos htotal]
  · rw [if_neg htotal] at h ⊢
    by_cases huser : perUserMax sess ≤ m.held sess.username
    · rw [if_pos huser]
    · rw [if_neg huser] at h
      cases h

/-- After any calls the counters are those of the stored sessions and no counter is kept that is not
positive; the sessions are at most `maxTotal`, or none where that is negative; a registration that
fails leaves everything as it was; and a user whose sessions all carry one limit has at most as
many. -/
theorem session_limits (maxTotal : ℤ) (calls : List Call) (h : Proper calls) :
    (run maxTotal calls).total = (run maxTotal calls).sessions.entries.length ∧
      (∀ username, (run maxTotal calls).held username =
        count username (run maxTotal calls).sessions.entries) ∧
      (∀ username n, (run maxTotal calls).byUser.lookup username = some n → 0 < n) ∧
      (0 ≤ maxTotal → (run maxTotal calls).total ≤ maxTotal) ∧
      (maxTotal < 0 → (run maxTotal calls).total = 0) ∧
      (∀ sess message, ((run maxTotal calls).register sess).1 = some message →
        ((run maxTotal calls).register sess).2 = run maxTotal calls) ∧
      ∀ id sess, (run maxTotal calls).sessions.lookup id = some sess →
        (∀ id' sess', (run maxTotal calls).sessions.lookup id' = some sess' →
          sess'.username = sess.username → perUserMax sess' = perUserMax sess) →
        (count sess.username (run maxTotal calls).sessions.entries : ℤ) ≤ perUserMax sess := by
  have hc : Consistent (run maxTotal calls) := (run_consistent h).1
  have hle := hc.zero_or_le
  have htotal := hc.total_eq
  rw [run_maxTotal] at hle
  refine ⟨htotal, hc.held_eq, fun username n hn => ?_, fun _ => by omega, fun _ => by omega,
    fun _ _ => register_failed, fun id sess _ hsame => ?_⟩
  · rw [hc.byUser_eq, counter] at hn
    split at hn
    · cases hn
    · cases hn
      omega
  · have hpos := perUserMax_pos sess
    exact hc.ranked.count_le (by omega) fun e he =>
      hsame e.1 e.2 (AList.mem_lookup_iff.mpr he)

/-! ## A few calls -/

def alice (id : String) : Session := ⟨id, "alice", 1⟩

/-- The second session is refused, the first is given back twice, the third is let in. -/
def aliceCalls : List Call :=
  [.register (alice "1"), .register (alice "2"), .unregister "1" "alice", .unregister "1" "alice",
    .register (alice "3")]

theorem session_limits_alice : (run 2 aliceCalls).total = 1 ∧
      (run 2 aliceCalls).total = (run 2 aliceCalls).sessions.entries.length :=
  ⟨rfl, (session_limits 2 aliceCalls ⟨by decide, by simp [aliceCalls, alice, Call.Fits]⟩).1⟩

/-- No session at all is more than a negative `maxTotal`. -/
theorem negative_maxTotal_exceeded : Proper [] ∧ ¬ (run (-1) []).total ≤ (run (-1) []).maxTotal :=
  ⟨⟨List.nodup_nil, List.Pairwise.nil⟩, by decide⟩

end Insula.SessionLimits
