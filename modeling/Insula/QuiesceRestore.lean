import Insula.Quiesce

/-!
# What comes back after a quiesce

Every Deployment that was running and every CronJob comes back as it was, from a snapshot of a
quiesce that may have been cut. A Deployment at 0 comes back at what is recorded next to its hold,
and so a second quiesce, whose snapshot has 0 everywhere, still leads back to the counts before the
first.
-/

namespace Insula.Quiesce

def Deployment.recovered (d : Deployment) (answers : Bool) : ℕ :=
  if answers ∧ d.storageQuiesced = some "true" ∧ d.replicas = 0 then
    (d.preQuiesceReplicas.bind parseReplicas).getD 0
  else d.replicas

theorem Deployment.recovered_of_pos {d : Deployment} (h : 0 < d.replicas) (answers : Bool) :
    d.recovered answers = d.replicas := if_neg fun hd => by omega

/-- The annotation carries every count of at most four digits. -/
theorem parseReplicas_toString {k : ℕ} (hpos : 0 < k) (hle : k ≤ 9999) :
    parseReplicas (toString k) = some k := by
  have hlist : (toString k).toList = Nat.toDigits 10 k := Nat.toList_repr
  have hlength : (Nat.toDigits 10 k).length ≤ 4 :=
    (Nat.length_toDigits_le_iff (by decide) (by decide)).2 (by omega)
  have hdigits : (Nat.toDigits 10 k).all Char.isDigit = true :=
    List.all_eq_true.2 fun c hc => Nat.isDigit_of_mem_toDigits (by decide) le_rfl hc
  unfold parseReplicas
  rw [hlist, if_pos ⟨Nat.length_toDigits_pos, hlength, hdigits⟩, Nat.ofDigitChars_ten_toDigits]
  simp [hpos]

/-! ## Writes -/

def Write.deployment : Write → Option String
  | .hold name _ | .release name | .scale name _ => some name
  | .suspend _ _ => none

def Write.cronJob : Write → Option String
  | .suspend name _ => some name
  | _ => none

section Writes

variable {ns : Namespace} {w : Write} {ws : List Write} {n : String}

@[simp] theorem apply_deployment_names : (ns.apply w).deployments.names = ns.deployments.names := by
  cases w <;> rfl

@[simp] theorem apply_cronJob_names : (ns.apply w).cronJobs.names = ns.cronJobs.names := by
  cases w <;> rfl

theorem apply_deployment_of_ne (h : w.deployment ≠ some n) :
    (ns.apply w).deployments.spec n = ns.deployments.spec n := by
  cases w with
  | suspend name flag => rfl
  | hold name replicas => exact if_neg fun hn => h (congrArg some hn.symm)
  | release name => exact if_neg fun hn => h (congrArg some hn.symm)
  | scale name replicas => exact if_neg fun hn => h (congrArg some hn.symm)

theorem apply_cronJob_of_ne (h : w.cronJob ≠ some n) :
    (ns.apply w).cronJobs.spec n = ns.cronJobs.spec n := by
  cases w with
  | suspend name flag => exact if_neg fun hn => h (congrArg some hn.symm)
  | hold name replicas => rfl
  | release name => rfl
  | scale name replicas => rfl

@[simp] theorem foldl_deployment_names :
    (ws.foldl Namespace.apply ns).deployments.names = ns.deployments.names := by
  induction ws generalizing ns with
  | nil => rfl
  | cons w ws ih => simp [ih]

@[simp] theorem foldl_cronJob_names :
    (ws.foldl Namespace.apply ns).cronJobs.names = ns.cronJobs.names := by
  induction ws generalizing ns with
  | nil => rfl
  | cons w ws ih => simp [ih]

theorem foldl_deployment_of_ne (h : ∀ w ∈ ws, w.deployment ≠ some n) :
    (ws.foldl Namespace.apply ns).deployments.spec n = ns.deployments.spec n := by
  induction ws generalizing ns with
  | nil => rfl
  | cons w ws ih =>
    rw [List.foldl_cons, ih fun w hw => h w (by simp [hw]), apply_deployment_of_ne (h w (by simp))]

theorem foldl_cronJob_of_ne (h : ∀ w ∈ ws, w.cronJob ≠ some n) :
    (ws.foldl Namespace.apply ns).cronJobs.spec n = ns.cronJobs.spec n := by
  induction ws generalizing ns with
  | nil => rfl
  | cons w ws ih =>
    rw [List.foldl_cons, ih fun w hw => h w (by simp [hw]), apply_cronJob_of_ne (h w (by simp))]

end Writes

/-! ## After a quiesce -/

section AfterQuiesce

variable {ns : Namespace} {landed : ℕ} {n : String}

theorem deployment_of_quiesceWrite {w : Write} (hw : w ∈ quiesceWrites (capture ns))
    (h : w.deployment = some n) : 0 < (ns.deployments.spec n).replicas := by
  obtain hw | hw := List.mem_append.1 hw
  · obtain ⟨d, hd, hw⟩ := List.mem_flatMap.1 hw
    obtain ⟨name, hname, rfl⟩ := List.mem_map.1 hd
    unfold holdWrites at hw
    split at hw
    · rename_i hpos
      have hn : name = n := by
        obtain rfl | hw := List.mem_cons.1 hw
        · exact Option.some.inj h
        · obtain rfl := List.mem_singleton.1 hw
          exact Option.some.inj h
      exact hn ▸ hpos
    · cases hw
  · obtain ⟨cj, -, hw⟩ := List.mem_flatMap.1 hw
    unfold suspendWrites at hw
    split at hw
    · cases hw
    · obtain rfl := List.mem_singleton.1 hw
      cases h

theorem cronJob_of_quiesceWrite {w : Write} (hw : w ∈ quiesceWrites (capture ns))
    (h : w.cronJob = some n) : ns.cronJobs.spec n = false := by
  obtain hw | hw := List.mem_append.1 hw
  · obtain ⟨d, -, hw⟩ := List.mem_flatMap.1 hw
    unfold holdWrites at hw
    split at hw
    · obtain rfl | hw := List.mem_cons.1 hw
      · cases h
      · obtain rfl := List.mem_singleton.1 hw
        cases h
    · cases hw
  · obtain ⟨cj, hcj, hw⟩ := List.mem_flatMap.1 hw
    obtain ⟨name, hname, rfl⟩ := List.mem_map.1 hcj
    unfold suspendWrites at hw
    split at hw
    · cases hw
    · rename_i hflag
      obtain rfl := List.mem_singleton.1 hw
      obtain rfl : name = n := Option.some.inj h
      exact eq_false_of_ne_true hflag

theorem quiesce_idle_deployment (h : (ns.deployments.spec n).replicas = 0) :
    (quiesce landed ns).1.deployments.spec n = ns.deployments.spec n := by
  apply foldl_deployment_of_ne
  intro w hw hn
  have hpos := deployment_of_quiesceWrite (List.mem_of_mem_take hw) hn
  omega

theorem quiesce_suspended (h : ns.cronJobs.spec n = true) :
    (quiesce landed ns).1.cronJobs.spec n = true := by
  rw [← h]
  apply foldl_cronJob_of_ne
  intro w hw hn
  have hflag := cronJob_of_quiesceWrite (List.mem_of_mem_take hw) hn
  rw [h] at hflag
  cases hflag

theorem foldl_holdWrites {names : List String} (hnodup : names.Nodup) (hn : n ∈ names)
    (entry : String → ℕ) (hpos : 0 < entry n) :
    (((names.map fun name => (⟨name, entry name⟩ : Entry)).flatMap holdWrites).foldl
        Namespace.apply ns).deployments.spec n = ⟨0, some "true", some (toString (entry n))⟩ := by
  induction names generalizing ns with
  | nil => cases hn
  | cons name names ih =>
    rw [List.map_cons, List.flatMap_cons, List.foldl_append]
    obtain rfl | hn := List.mem_cons.1 hn
    · rw [foldl_deployment_of_ne]
      · simp [holdWrites, hpos, Namespace.apply]
      · intro w hw hname
        obtain ⟨d, hd, hw⟩ := List.mem_flatMap.1 hw
        obtain ⟨other, hother, rfl⟩ := List.mem_map.1 hd
        have heq : other = n := by
          unfold holdWrites at hw
          split at hw
          · obtain rfl | hw := List.mem_cons.1 hw
            · exact Option.some.inj hname
            · obtain rfl := List.mem_singleton.1 hw
              exact Option.some.inj hname
          · cases hw
        exact (List.nodup_cons.1 hnodup).1 (heq ▸ hother)
    · exact ih (List.nodup_cons.1 hnodup).2 hn

theorem foldl_suspendWrites {names : List String} (hn : n ∈ names) (flag : String → Bool)
    (hflag : flag n = false) :
    (((names.map fun name => (⟨name, flag name⟩ : CronEntry)).flatMap suspendWrites).foldl
        Namespace.apply ns).cronJobs.spec n = true := by
  induction names generalizing ns with
  | nil => cases hn
  | cons name names ih =>
    rw [List.map_cons, List.flatMap_cons, List.foldl_append]
    by_cases hmem : n ∈ names
    · exact ih hmem
    · obtain rfl | hn := List.mem_cons.1 hn
      · rw [foldl_cronJob_of_ne]
        · simp [suspendWrites, hflag, Namespace.apply]
        · intro w hw hname
          obtain ⟨cj, hcj, hw⟩ := List.mem_flatMap.1 hw
          obtain ⟨other, hother, rfl⟩ := List.mem_map.1 hcj
          unfold suspendWrites at hw
          split at hw
          · cases hw
          · obtain rfl := List.mem_singleton.1 hw
            obtain rfl : other = n := Option.some.inj hname
            exact hmem hother
      · exact absurd hn hmem

/-- After a whole quiesce a running Deployment is at 0 and held with the count that it had. -/
theorem quiesce_running_deployment (hc : Completes landed ns) (hn : n ∈ ns.deployments.names)
    (hpos : 0 < (ns.deployments.spec n).replicas) : (quiesce landed ns).1.deployments.spec n =
      ⟨0, some "true", some (toString (ns.deployments.spec n).replicas)⟩ := by
  unfold quiesce
  rw [List.take_of_length_le hc, quiesceWrites, List.foldl_append, foldl_deployment_of_ne]
  · exact foldl_holdWrites ns.deployments.nodup hn (fun name => (ns.deployments.spec name).replicas)
      hpos
  · intro w hw hname
    obtain ⟨cj, -, hw⟩ := List.mem_flatMap.1 hw
    unfold suspendWrites at hw
    split at hw
    · cases hw
    · obtain rfl := List.mem_singleton.1 hw
      cases hname

theorem quiesce_all_suspended (hc : Completes landed ns) (hn : n ∈ ns.cronJobs.names) :
    (quiesce landed ns).1.cronJobs.spec n = true := by
  cases hflag : ns.cronJobs.spec n with
  | true => exact quiesce_suspended hflag
  | false =>
    unfold quiesce
    rw [List.take_of_length_le hc, quiesceWrites, List.foldl_append]
    exact foldl_suspendWrites hn ns.cronJobs.spec hflag

theorem quiesce_all_idle (hc : Completes landed ns) (hn : n ∈ ns.deployments.names) :
    ((quiesce landed ns).1.deployments.spec n).replicas = 0 := by
  obtain hzero | hpos := Nat.eq_zero_or_pos (ns.deployments.spec n).replicas
  · rw [quiesce_idle_deployment hzero, hzero]
  · rw [quiesce_running_deployment hc hn hpos]

theorem quiesceWrites_again (hc : Completes landed ns) :
    quiesceWrites (capture (quiesce landed ns).1) = [] := by
  unfold quiesceWrites
  rw [List.append_eq_nil_iff, List.flatMap_eq_nil_iff, List.flatMap_eq_nil_iff]
  constructor
  · intro d hd
    obtain ⟨name, hname, rfl⟩ := List.mem_map.1 hd
    have hidle : ((quiesce landed ns).1.deployments.spec name).replicas = 0 :=
      quiesce_all_idle hc (by simpa [quiesce] using hname)
    exact if_neg (by simp [hidle])
  · intro cj hcj
    obtain ⟨name, hname, rfl⟩ := List.mem_map.1 hcj
    exact if_pos (quiesce_all_suspended hc (by simpa [quiesce] using hname))

end AfterQuiesce

/-! ## Bringing it back -/

section Restore

variable {c : Cluster} {p : Progress} {ns : Namespace} {d : Entry} {n name : String}
  {entries : List Entry}

theorem scaleUp_failures {replicas : ℕ} (h : (scaleUp c p name replicas).failures = []) :
    p.failures = [] := by
  unfold scaleUp at h
  split at h
  · split at h
    · exact h
    · simp at h
  · exact h

theorem scaleUp_names (name : String) (replicas : ℕ) :
    (scaleUp c p name replicas).ns.deployments.names = p.ns.deployments.names := by
  unfold scaleUp
  split
  · split
    · exact apply_deployment_names
    · dsimp only
      split
      · exact apply_deployment_names
      · rfl
  · rfl

theorem scaleUp_of_ne (h : n ≠ name) (replicas : ℕ) :
    (scaleUp c p name replicas).ns.deployments.spec n = p.ns.deployments.spec n := by
  have hne : (Write.scale name replicas).deployment ≠ some n := fun hn => h (Option.some.inj hn).symm
  unfold scaleUp
  split
  · split
    · exact apply_deployment_of_ne hne
    · dsimp only
      split
      · exact apply_deployment_of_ne hne
      · rfl
  · rfl

theorem scaleUp_self {replicas : ℕ} (hn : name ∈ p.ns.deployments.names)
    (h : (scaleUp c p name replicas).failures = []) :
    ((scaleUp c p name replicas).ns.deployments.spec name).replicas = replicas := by
  unfold scaleUp at h ⊢
  rw [if_pos hn] at h ⊢
  split at h
  · simp [Namespace.apply]
  · simp at h

def entryCount (c : Cluster) (ns : Namespace) (d : Entry) : ℕ :=
  if d.replicas ≤ 0 then (staleCount c ns d.name).getD (ns.deployments.spec d.name).replicas
  else d.replicas

theorem scaleUpEntry_failures (h : (scaleUpEntry c p d).failures = []) : p.failures = [] := by
  unfold scaleUpEntry at h
  split at h
  · split at h
    · exact scaleUp_failures h
    · exact h
  · exact scaleUp_failures h

theorem scaleUpEntry_names :
    (scaleUpEntry c p d).ns.deployments.names = p.ns.deployments.names := by
  unfold scaleUpEntry
  split
  · split
    · exact scaleUp_names _ _
    · rfl
  · exact scaleUp_names _ _

theorem scaleUpEntry_of_ne (h : n ≠ d.name) :
    (scaleUpEntry c p d).ns.deployments.spec n = p.ns.deployments.spec n := by
  unfold scaleUpEntry
  split
  · split
    · exact scaleUp_of_ne h _
    · rfl
  · exact scaleUp_of_ne h _

theorem scaleUpEntry_self (hn : d.name ∈ p.ns.deployments.names)
    (h : (scaleUpEntry c p d).failures = []) :
    ((scaleUpEntry c p d).ns.deployments.spec d.name).replicas = entryCount c p.ns d := by
  unfold scaleUpEntry at h ⊢
  unfold entryCount
  by_cases hzero : d.replicas ≤ 0
  · rw [if_pos hzero] at h ⊢
    rw [if_pos hzero]
    cases hcount : staleCount c p.ns d.name with
    | none => rfl
    | some count =>
      rw [hcount] at h
      exact scaleUp_self hn h
  · rw [if_neg hzero] at h ⊢
    rw [if_neg hzero, scaleUp_self hn h]

theorem staleCount_congr {ns' : Namespace} (hnames : ns'.deployments.names = ns.deployments.names)
    (hspec : ns'.deployments.spec n = ns.deployments.spec n) :
    staleCount c ns' n = staleCount c ns n := by
  unfold staleCount readDeploymentStatus
  rw [hnames, hspec]

theorem foldl_scaleUpEntry_failures (h : (entries.foldl (scaleUpEntry c) p).failures = []) :
    p.failures = [] := by
  induction entries generalizing p with
  | nil => exact h
  | cons d entries ih => exact scaleUpEntry_failures (ih h)

theorem foldl_scaleUpEntry_of_ne (h : n ∉ entries.map Entry.name) :
    (entries.foldl (scaleUpEntry c) p).ns.deployments.spec n = p.ns.deployments.spec n := by
  induction entries generalizing p with
  | nil => rfl
  | cons d entries ih =>
    rw [List.map_cons, List.mem_cons, not_or] at h
    rw [List.foldl_cons, ih h.2, scaleUpEntry_of_ne h.1]

theorem foldl_scaleUpEntry_self (hnodup : (entries.map Entry.name).Nodup) (hd : d ∈ entries)
    (hn : d.name ∈ p.ns.deployments.names) (h : (entries.foldl (scaleUpEntry c) p).failures = []) :
    ((entries.foldl (scaleUpEntry c) p).ns.deployments.spec d.name).replicas =
      entryCount c p.ns d := by
  induction entries generalizing p with
  | nil => cases hd
  | cons e entries ih =>
    rw [List.map_cons, List.nodup_cons] at hnodup
    rw [List.foldl_cons] at h ⊢
    obtain rfl | hd := List.mem_cons.1 hd
    · rw [foldl_scaleUpEntry_of_ne hnodup.1]
      exact scaleUpEntry_self hn (foldl_scaleUpEntry_failures h)
    · have hne : d.name ≠ e.name := fun heq => hnodup.1 (heq ▸ List.mem_map_of_mem hd)
      rw [ih hnodup.2 hd (by rwa [scaleUpEntry_names]) h]
      unfold entryCount
      rw [staleCount_congr scaleUpEntry_names (scaleUpEntry_of_ne hne), scaleUpEntry_of_ne hne]

/-! ### The later phases -/

theorem foldl_dropHold_replicas :
    ((entries.foldl (dropHold c p) ns).deployments.spec n).replicas =
      (ns.deployments.spec n).replicas := by
  induction entries generalizing ns with
  | nil => rfl
  | cons d entries ih =>
    rw [List.foldl_cons, ih]
    unfold dropHold
    dsimp only
    split
    · by_cases hn : n = d.name
      · rw [hn]
        simp [Namespace.apply]
      · rw [apply_deployment_of_ne (by simpa [Write.deployment] using Ne.symm hn)]
    · rfl

theorem foldl_dropHold_cronJobs : (entries.foldl (dropHold c p) ns).cronJobs = ns.cronJobs := by
  induction entries generalizing ns with
  | nil => rfl
  | cons d entries ih =>
    rw [List.foldl_cons, ih]
    unfold dropHold
    dsimp only
    split <;> rfl

variable {state : Namespace × List Failure} {cj : CronEntry}

theorem unsuspend_deployments : (unsuspend c state cj).1.deployments = state.1.deployments := by
  unfold unsuspend
  split
  · rfl
  · split
    · rfl
    · dsimp only
      split <;> rfl

theorem unsuspend_names : (unsuspend c state cj).1.cronJobs.names = state.1.cronJobs.names := by
  unfold unsuspend
  split
  · rfl
  · split
    · rfl
    · dsimp only
      split <;> rfl

theorem unsuspend_failures (h : (unsuspend c state cj).2 = []) : state.2 = [] := by
  unfold unsuspend at h
  split at h
  · exact h
  · split at h
    · exact h
    · simp at h

theorem unsuspend_of_ne (h : n ≠ cj.name) :
    (unsuspend c state cj).1.cronJobs.spec n = state.1.cronJobs.spec n := by
  have hne : (Write.suspend cj.name false).cronJob ≠ some n := fun hn => h (Option.some.inj hn).symm
  unfold unsuspend
  split
  · rfl
  · split
    · exact apply_cronJob_of_ne hne
    · dsimp only
      split
      · exact apply_cronJob_of_ne hne
      · rfl

theorem unsuspend_self (hn : cj.name ∈ state.1.cronJobs.names) (h : (unsuspend c state cj).2 = []) :
    (unsuspend c state cj).1.cronJobs.spec cj.name =
      if cj.wasSuspended then state.1.cronJobs.spec cj.name else false := by
  unfold unsuspend at h ⊢
  by_cases hs : cj.wasSuspended = true
  · rw [if_pos (.inl hs), if_pos hs]
  · have hgo : ¬ (cj.wasSuspended = true ∨ cj.name ∉ state.1.cronJobs.names) :=
      fun hor => hor.elim hs fun hout => hout hn
    rw [if_neg hgo] at h ⊢
    rw [if_neg hs]
    split at h
    · simp [Namespace.apply]
    · simp at h

theorem foldl_unsuspend_deployments {entries : List CronEntry} :
    (entries.foldl (unsuspend c) state).1.deployments = state.1.deployments := by
  induction entries generalizing state with
  | nil => rfl
  | cons cj entries ih => rw [List.foldl_cons, ih, unsuspend_deployments]

theorem foldl_unsuspend_failures {entries : List CronEntry}
    (h : (entries.foldl (unsuspend c) state).2 = []) : state.2 = [] := by
  induction entries generalizing state with
  | nil => exact h
  | cons cj entries ih => exact unsuspend_failures (ih h)

theorem foldl_unsuspend_of_ne {entries : List CronEntry} (h : n ∉ entries.map CronEntry.name) :
    (entries.foldl (unsuspend c) state).1.cronJobs.spec n = state.1.cronJobs.spec n := by
  induction entries generalizing state with
  | nil => rfl
  | cons cj entries ih =>
    rw [List.map_cons, List.mem_cons, not_or] at h
    rw [List.foldl_cons, ih h.2, unsuspend_of_ne h.1]

theorem foldl_unsuspend_self {entries : List CronEntry}
    (hnodup : (entries.map CronEntry.name).Nodup) (hcj : cj ∈ entries)
    (hn : cj.name ∈ state.1.cronJobs.names) (h : (entries.foldl (unsuspend c) state).2 = []) :
    (entries.foldl (unsuspend c) state).1.cronJobs.spec cj.name =
      if cj.wasSuspended then state.1.cronJobs.spec cj.name else false := by
  induction entries generalizing state with
  | nil => cases hcj
  | cons e entries ih =>
    rw [List.map_cons, List.nodup_cons] at hnodup
    rw [List.foldl_cons] at h ⊢
    obtain rfl | hcj := List.mem_cons.1 hcj
    · rw [foldl_unsuspend_of_ne hnodup.1]
      exact unsuspend_self hn (foldl_unsuspend_failures h)
    · have hne : cj.name ≠ e.name := fun heq => hnodup.1 (heq ▸ List.mem_map_of_mem hcj)
      rw [ih hnodup.2 hcj (by rwa [unsuspend_names]) h, unsuspend_of_ne hne]

/-! ### The whole restore -/

theorem unquiesce_deployment {snap : QuiesceSnapshot}
    (hnodup : (snap.deployments.map Entry.name).Nodup) (hd : d ∈ snap.deployments)
    (hn : d.name ∈ ns.deployments.names) (h : (unquiesce c ns snap).2 = []) :
    ((unquiesce c ns snap).1.deployments.spec d.name).replicas = entryCount c ns d := by
  have hfailures := List.append_eq_nil_iff.1 (foldl_unsuspend_failures h)
  unfold unquiesce
  dsimp only
  rw [foldl_unsuspend_deployments, foldl_dropHold_replicas]
  exact foldl_scaleUpEntry_self (p := ⟨ns, [], [], []⟩) hnodup hd hn hfailures.1

theorem scaleUps_cronJobs (entries : List Entry) :
    (scaleUps c ns entries).ns.cronJobs = ns.cronJobs := by
  have hstep : ∀ (p : Progress) (d : Entry), (scaleUpEntry c p d).ns.cronJobs = p.ns.cronJobs := by
    intro p d
    unfold scaleUpEntry scaleUp
    split_ifs <;> (repeat' split) <;> rfl
  have hfold : ∀ (entries : List Entry) (p : Progress),
      (entries.foldl (scaleUpEntry c) p).ns.cronJobs = p.ns.cronJobs := by
    intro entries
    induction entries with
    | nil => intro p; rfl
    | cons d entries ih => intro p; rw [List.foldl_cons, ih, hstep]
  exact hfold entries _

theorem unquiesce_cronJob {snap : QuiesceSnapshot}
    (hnodup : (snap.cronJobs.map CronEntry.name).Nodup) (hcj : cj ∈ snap.cronJobs)
    (hn : cj.name ∈ ns.cronJobs.names) (h : (unquiesce c ns snap).2 = []) :
    (unquiesce c ns snap).1.cronJobs.spec cj.name =
      if cj.wasSuspended then ns.cronJobs.spec cj.name else false := by
  unfold unquiesce at h ⊢
  dsimp only at h ⊢
  have hjobs : (snap.deployments.foldl (dropHold c (scaleUps c ns snap.deployments))
      (scaleUps c ns snap.deployments).ns).cronJobs = ns.cronJobs := by
    rw [foldl_dropHold_cronJobs, scaleUps_cronJobs]
  rw [foldl_unsuspend_self hnodup hcj (by rw [hjobs]; exact hn) h, hjobs]

end Restore

/-! ## Quiesce, then unquiesce -/

section RoundTrip

variable {c : Cluster} {ns q : Namespace} {n : String}

theorem capture_names : ((capture ns).deployments.map Entry.name) = ns.deployments.names ∧
      ((capture ns).cronJobs.map CronEntry.name) = ns.cronJobs.names := by
  constructor <;> simp [capture, Function.comp_def]

theorem entryCount_zero (hn : n ∈ ns.deployments.names)
    (hzero : (ns.deployments.spec n).replicas = 0) :
    entryCount c ns ⟨n, 0⟩ = (ns.deployments.spec n).recovered (c.statusAnswers n) := by
  unfold entryCount staleCount readDeploymentStatus Deployment.recovered
  by_cases hanswer : c.statusAnswers n = true
  · by_cases hheld : (ns.deployments.spec n).storageQuiesced = some "true"
    · simp [hanswer, hn, hheld, hzero, Deployment.view]
    · simp [hanswer, hn, hheld, hzero, Deployment.view]
  · simp [hanswer, hzero]

/-- A snapshot brings back a namespace in which only running Deployments were touched. -/
theorem unquiesce_capture_deployment (hnames : q.deployments.names = ns.deployments.names)
    (hidle : (ns.deployments.spec n).replicas = 0 → q.deployments.spec n = ns.deployments.spec n)
    (hn : n ∈ ns.deployments.names) (h : (unquiesce c q (capture ns)).2 = []) :
    ((unquiesce c q (capture ns)).1.deployments.spec n).replicas =
      (ns.deployments.spec n).recovered (c.statusAnswers n) := by
  have hentry : (⟨n, (ns.deployments.spec n).replicas⟩ : Entry) ∈ (capture ns).deployments :=
    List.mem_map_of_mem hn
  have hrestored := unquiesce_deployment (by rw [capture_names.1]; exact ns.deployments.nodup) hentry
    (by rw [hnames]; exact hn) h
  rw [hrestored]
  obtain hzero | hpos := Nat.eq_zero_or_pos (ns.deployments.spec n).replicas
  · rw [hzero, entryCount_zero (by rw [hnames]; exact hn) (by rw [hidle hzero, hzero]),
      hidle hzero]
  · rw [Deployment.recovered_of_pos hpos]
    exact if_neg (by simp; omega)

end RoundTrip

/-- A restore that returns without an error gives back every Deployment's count, apart from one at 0
that is held with a recorded count, and every CronJob's flag; and after a second quiesce a restore
by its snapshot leads every Deployment of at most four digits whose status is answered to the same
count. -/
theorem unquiesce_restores (c : Cluster) (ns : Namespace) (landed : ℕ) :
    ((unquiesce c (quiesce landed ns).1 (quiesce landed ns).2).2 = [] → (∀ n ∈ ns.deployments.names,
        ((unquiesce c (quiesce landed ns).1 (quiesce landed ns).2).1.deployments.spec n).replicas =
          (ns.deployments.spec n).recovered (c.statusAnswers n)) ∧ ∀ n ∈ ns.cronJobs.names,
        (unquiesce c (quiesce landed ns).1 (quiesce landed ns).2).1.cronJobs.spec n =
          ns.cronJobs.spec n) ∧ (Completes landed ns → ∀ again,
      (unquiesce c (quiesce again (quiesce landed ns).1).1
        (quiesce again (quiesce landed ns).1).2).2 = [] →
      ∀ n ∈ ns.deployments.names, (ns.deployments.spec n).replicas ≤ 9999 → c.statusAnswers n →
        ((unquiesce c (quiesce again (quiesce landed ns).1).1
            (quiesce again (quiesce landed ns).1).2).1.deployments.spec n).replicas =
          (ns.deployments.spec n).recovered true) := by
  have hnames : (quiesce landed ns).1.deployments.names = ns.deployments.names := by simp [quiesce]
  have hjobs : (quiesce landed ns).1.cronJobs.names = ns.cronJobs.names := by simp [quiesce]
  constructor
  · intro h
    constructor
    · intro n hn
      exact unquiesce_capture_deployment hnames quiesce_idle_deployment hn h
    · intro n hn
      have hentry : (⟨n, ns.cronJobs.spec n⟩ : CronEntry) ∈ (capture ns).cronJobs :=
        List.mem_map_of_mem hn
      have hrestored := unquiesce_cronJob (by rw [capture_names.2]; exact ns.cronJobs.nodup) hentry
        (by rw [hjobs]; exact hn) h
      apply Eq.trans hrestored
      cases hflag : ns.cronJobs.spec n with
      | true => exact quiesce_suspended hflag
      | false => rfl
  · intro hc again h n hn hle hanswer
    have hagain : quiesce again (quiesce landed ns).1 =
        ((quiesce landed ns).1, capture (quiesce landed ns).1) := by
      change (((quiesceWrites (capture (quiesce landed ns).1)).take again).foldl _ _, _) = _
      rw [quiesceWrites_again hc, List.take_nil, List.foldl_nil]
    rw [hagain] at h ⊢
    rw [unquiesce_capture_deployment rfl (fun _ => rfl) (by rw [hnames]; exact hn) h, hanswer]
    obtain hzero | hpos := Nat.eq_zero_or_pos (ns.deployments.spec n).replicas
    · rw [quiesce_idle_deployment hzero]
    · rw [quiesce_running_deployment hc hn hpos, Deployment.recovered_of_pos hpos]
      simp only [Deployment.recovered, and_self, if_true, Option.bind_some,
        parseReplicas_toString hpos hle, Option.getD_some]

/-! ## One namespace -/

def calm : Cluster where
  statusAnswers _ := true
  scale _ := .ok
  outcome _ := .restored
  releases _ := true
  unsuspend _ := .ok

def shopWith (web : Deployment) : Namespace where
  deployments := ⟨["web", "file-manager"], by decide, fun n =>
    if n = "web" then web else ⟨0, none, none⟩⟩
  cronJobs := ⟨["nightly", "paused"], by decide, fun n => n = "paused"⟩

theorem unquiesce_restores_shop : ((unquiesce calm (quiesce 3 (shopWith ⟨3, none, none⟩)).1
        (quiesce 3 (shopWith ⟨3, none, none⟩)).2).1.deployments.spec "web").replicas = 3 ∧
      (unquiesce calm (quiesce 3 (shopWith ⟨3, none, none⟩)).1
        (quiesce 3 (shopWith ⟨3, none, none⟩)).2).1.cronJobs.spec "nightly" = false ∧
      ((unquiesce calm (quiesce 9 (quiesce 3 (shopWith ⟨3, none, none⟩)).1).1
        (quiesce 9 (quiesce 3 (shopWith ⟨3, none, none⟩)).1).2).1.deployments.spec "web").replicas
          = 3 := by
  obtain ⟨hfirst, hsecond⟩ := unquiesce_restores calm (shopWith ⟨3, none, none⟩) 3
  obtain ⟨hdeployments, hcronJobs⟩ := hfirst (by rfl)
  refine ⟨hdeployments "web" (by decide), hcronJobs "nightly" (by decide), ?_⟩
  exact hsecond (by decide) 9 (by decide) "web" (by decide) (by decide) rfl

/-- A Deployment that someone scaled to 0 while an old hold was left on it comes back at the count
that the hold recorded. -/
theorem stale_hold_restored : ¬ ∀ (c : Cluster) (ns : Namespace) (landed : ℕ),
      ((unquiesce c (quiesce landed ns).1 (quiesce landed ns).2).2 = [] →
        (∀ n ∈ ns.deployments.names,
          ((unquiesce c (quiesce landed ns).1 (quiesce landed ns).2).1.deployments.spec n).replicas =
            (ns.deployments.spec n).replicas) ∧ ∀ n ∈ ns.cronJobs.names,
          (unquiesce c (quiesce landed ns).1 (quiesce landed ns).2).1.cronJobs.spec n =
            ns.cronJobs.spec n) ∧ (Completes landed ns → ∀ again,
        (unquiesce c (quiesce again (quiesce landed ns).1).1
          (quiesce again (quiesce landed ns).1).2).2 = [] → (∀ n ∈ ns.deployments.names,
          ((unquiesce c (quiesce again (quiesce landed ns).1).1
              (quiesce again (quiesce landed ns).1).2).1.deployments.spec n).replicas =
            (ns.deployments.spec n).replicas) ∧ ∀ n ∈ ns.cronJobs.names,
          (unquiesce c (quiesce again (quiesce landed ns).1).1
              (quiesce again (quiesce landed ns).1).2).1.cronJobs.spec n = ns.cronJobs.spec n) := by
  intro h
  have hsame := ((h calm (shopWith ⟨0, some "true", some "3"⟩) 2).1 (by rfl)).1 "web"
    (by decide)
  revert hsame
  decide

end Insula.Quiesce
