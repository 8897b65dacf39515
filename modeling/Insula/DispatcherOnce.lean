import Insula.Dispatcher
import Mathlib.Data.List.Nodup

/-!
# What a dedupe key is worth

Before a user is told anything, the dispatcher looks for a delivery of that user under the key. An
item of a digest is no delivery: in a category that is routed to email alone the user's digest gets
the message once more with every call. The external addresses are not looked up at all. A row of the
panel counts only once its delivery is written. Where a call meets none of this, nobody gets a
second message on a channel within the window.
-/

namespace Insula.Notifications

open Transition

/-! ## The messages of one user -/

section Holder

variable (c : EmitEvent) (category : Category) (h : Holder)

theorem channelInserts_messages (channel : Channel) :
    ((c.channelInserts category h channel).filterMap Insert.message).Sublist
      [(channel, .user h.userId)] := by
  unfold EmitEvent.channelInserts
  split
  · exact List.nil_sublist _
  · rename_i hntfy
    split
    · exact List.nil_sublist _
    · split
      · rename_i hchannel
        rw [hchannel]
        exact List.Sublist.refl _
      · rename_i hinApp
        have hemail : channel = .email := by
          cases channel with
          | inApp => exact absurd rfl hinApp
          | email => rfl
          | ntfy => exact absurd rfl hntfy
        rw [hemail]
        split <;> exact List.Sublist.refl _

theorem holderInserts_messages : ((c.holderInserts category h).filterMap Insert.message).Sublist
      (c.routedChannels.map fun channel => (channel, .user h.userId)) := by
  unfold EmitEvent.holderInserts
  induction c.routedChannels with
  | nil => exact List.Sublist.refl _
  | cons channel channels ih =>
    rw [List.flatMap_cons, List.filterMap_append, List.map_cons]
    exact (channelInserts_messages c category h channel).append ih

theorem done_messages (xs : List Insert) :
    ((xs.takeWhile fun x => !c.fails x).filterMap Insert.message).Sublist
      (xs.filterMap Insert.message) :=
  (List.takeWhile_sublist _).filterMap _

theorem holder_messages_nodup (hchannels : c.routedChannels.Nodup) :
    ((c.holderInserts category h).filterMap Insert.message).Nodup := by
  apply (holderInserts_messages c category h).nodup
  apply hchannels.map
  intro a b hab
  exact (Prod.mk.inj hab).1

theorem holder_message_user {m : Channel × Recipient}
    (hm : m ∈ (c.holderInserts category h).filterMap Insert.message) : m.2 = .user h.userId := by
  have hmem := (holderInserts_messages c category h).subset hm
  obtain ⟨channel, -, rfl⟩ := List.mem_map.mp hmem
  rfl

/-- In the panel a message is withheld or written; either way there is a delivery. -/
theorem inApp_recorded : ∃ x ∈ c.channelInserts category h .inApp, x.leg.isSome := by
  unfold EmitEvent.channelInserts
  simp only [reduceCtorEq, if_false]
  split
  · exact ⟨_, List.mem_singleton.mpr rfl, rfl⟩
  · exact ⟨_, List.mem_cons_of_mem _ (List.mem_singleton.mpr rfl), rfl⟩

theorem leg_userId {x : Insert} {leg : Leg} (hx : x ∈ c.holderInserts category h)
    (hleg : x.leg = some leg) (id : String) (queuedAt : ℤ) (dedupeKey : Option String) :
    (leg.delivery id queuedAt dedupeKey).userId = some h.userId := by
  obtain ⟨channel, -, hx⟩ := List.mem_flatMap.mp hx
  unfold EmitEvent.channelInserts at hx
  split at hx
  · cases hx
  · split at hx
    · cases List.mem_singleton.mp hx
      cases hleg
      rfl
    · split at hx
      · rcases List.mem_cons.mp hx with rfl | hx
        · cases hleg
        · cases List.mem_singleton.mp hx
          cases hleg
          rfl
      · split at hx
        · cases List.mem_singleton.mp hx
          cases hleg
        · cases List.mem_singleton.mp hx
          cases hleg
          rfl

end Holder

@[simp] theorem delivery_dedupeKey (leg : Leg) (id : String) (queuedAt : ℤ)
    (dedupeKey : Option String) : (leg.delivery id queuedAt dedupeKey).dedupeKey = dedupeKey := by
  cases leg <;> rfl

@[simp] theorem delivery_queuedAt (leg : Leg) (id : String) (queuedAt : ℤ)
    (dedupeKey : Option String) : (leg.delivery id queuedAt dedupeKey).queuedAt = queuedAt := by
  cases leg <;> rfl

/-! ## The invariant -/

structure Notified (key : String) (start : ℤ) (o : Outbox) : Prop where
  nodup : o.messages.Nodup
  recorded : ∀ channel userId, (channel, .user userId) ∈ o.messages →
    ∃ d ∈ o.deliveries, d.userId = some userId ∧ d.dedupeKey = some key ∧ start ≤ d.queuedAt

/-- What a call must not do to a user whom it is about to tell: put an email into a digest when
nothing is routed to the panel, or break off after a message with no delivery written. -/
structure Records (c : EmitEvent) (category : Category) (h : Holder) : Prop where
  digests : .email ∈ c.routedChannels → (∃ templateId, c.gate category h .email = .passed templateId) →
    isDigestible category h.digestMode → .inApp ∈ c.routedChannels
  unbroken : ∀ pre x post, c.holderInserts category h = pre ++ x :: post → c.fails x →
    (∀ y ∈ pre, y.message = none) ∨ ∃ y ∈ pre, y.leg.isSome

section Users

variable {sha256 : String → String} {c : EmitEvent} {category : Category} {h : Holder}
  {key : String} {start : ℤ} {o : Outbox}

/-- The call carries the key, and falls into the window. -/
structure Carries (sha256 : String → String) (key : String) (start : ℤ) (c : EmitEvent) : Prop where
  key : c.dedupeKey.map (clampDedupeKey sha256) = some key
  started : start ≤ c.queuedAt
  within : c.now < start + dedupeWindowMs

theorem Notified.told (hn : Notified key start o) (hc : Carries sha256 key start c) (hkey : key ≠ "")
    {channel : Channel} {userId : String} (hm : (channel, .user userId) ∈ o.messages) :
    o.alreadyTold sha256 c userId = true := by
  obtain ⟨d, hd, huser, hdkey, hqueued⟩ := hn.recorded channel userId hm
  have hwithin := hc.within
  have hfilter : (some key).filter (· != "") = some key := by simp [hkey]
  unfold Outbox.alreadyTold
  rw [hc.key, hfilter]
  refine List.any_eq_true.mpr ⟨d, hd, ?_⟩
  simp only [Bool.decide_and, Bool.and_eq_true, decide_eq_true_eq]
  exact ⟨huser, hdkey, by omega⟩

/-- A message for the user is followed by a delivery, if nothing throws. -/
theorem recorded_of_message (hrecords : Records c category h) {x : Insert}
    (hx : x ∈ c.holderInserts category h) (hm : x.message ≠ none) :
    ∃ y ∈ c.holderInserts category h, y.leg.isSome := by
  obtain ⟨channel, hchannel, hmem⟩ := List.mem_flatMap.mp hx
  have hin : ∀ y ∈ c.channelInserts category h channel, y ∈ c.holderInserts category h :=
    fun y hy => List.mem_flatMap.mpr ⟨channel, hchannel, hy⟩
  by_cases hinApp : channel = .inApp
  · subst hinApp
    obtain ⟨y, hy, hleg⟩ := inApp_recorded c category h
    exact ⟨y, hin y hy, hleg⟩
  · cases x with
    | notification userId =>
      unfold EmitEvent.channelInserts at hmem
      split at hmem
      · cases hmem
      · split at hmem
        · cases List.mem_singleton.mp hmem
        · split at hmem <;> cases List.mem_singleton.mp hmem
    | delivery leg => exact ⟨_, hx, rfl⟩
    | digestItem userId =>
      -- Only the email leg of a digestible category comes here, and the panel has its own row.
      unfold EmitEvent.channelInserts at hmem
      split at hmem
      · cases hmem
      · rename_i hntfy
        have hemail : channel = .email := by
          cases channel with
          | inApp => exact absurd rfl hinApp
          | email => rfl
          | ntfy => exact absurd rfl hntfy
        subst hemail
        split at hmem
        · cases List.mem_singleton.mp hmem
        · rename_i templateId hgate
          split at hmem
          · rename_i hdigest
            have hpanel := hrecords.digests hchannel ⟨templateId, hgate⟩ hdigest
            obtain ⟨y, hy, hleg⟩ := inApp_recorded c category h
            exact ⟨y, List.mem_flatMap.mpr ⟨.inApp, hpanel, hy⟩, hleg⟩
          · cases List.mem_singleton.mp hmem

theorem recorded_of_done (hrecords : Records c category h) {x : Insert}
    (hx : x ∈ (c.holderInserts category h).takeWhile fun x => !c.fails x) (hm : x.message ≠ none) :
    ∃ y ∈ (c.holderInserts category h).takeWhile fun x => !c.fails x, y.leg.isSome := by
  have happend := List.takeWhile_append_dropWhile
    (p := fun x => !c.fails x) (l := c.holderInserts category h)
  cases hrest : (c.holderInserts category h).dropWhile fun x => !c.fails x with
  | nil =>
    rw [hrest, List.append_nil] at happend
    rw [happend] at hx ⊢
    exact recorded_of_message hrecords hx hm
  | cons x' post =>
    rw [hrest] at happend
    have hfails : c.fails x' = true := by
      have hhead := List.head?_dropWhile_not (fun x => !c.fails x) (c.holderInserts category h)
      rw [hrest] at hhead
      simpa using hhead
    rcases hrecords.unbroken _ x' post happend.symm hfails with hnone | hsome
    · exact absurd (hnone x hx) hm
    · exact hsome

/-- The user is told, in full or up to an insert that throws. -/
theorem Notified.holder (hn : Notified key start o) (hc : Carries sha256 key start c)
    (hkey : key ≠ "") (hchannels : c.routedChannels.Nodup) (hrecords : Records c category h)
    (hnot : o.alreadyTold sha256 c h.userId = false) :
    Notified key start (o.insertAll sha256 c (c.holderInserts category h)) := by
  have hsub := done_messages c (c.holderInserts category h)
  have hnew : ∀ channel, (channel, .user h.userId) ∉ o.messages := by
    intro channel hm
    rw [hn.told hc hkey hm] at hnot
    cases hnot
  constructor
  · refine List.nodup_append.mpr ⟨hn.nodup, ?_, ?_⟩
    · exact hsub.nodup (holder_messages_nodup c category h hchannels)
    · rintro ⟨channel, recipient⟩ hold m hm rfl
      have huser : recipient = .user h.userId :=
        holder_message_user c category h (hsub.subset hm)
      rw [huser] at hold
      exact hnew channel hold
  · intro channel userId hm
    rcases List.mem_append.mp hm with hold | hm
    · obtain ⟨d, hd, hrest⟩ := hn.recorded channel userId hold
      exact ⟨d, List.mem_append_left _ hd, hrest⟩
    · have huser : userId = h.userId := by
        have := holder_message_user c category h (hsub.subset hm)
        exact Recipient.user.inj this
      obtain ⟨x, hx, hmessage⟩ := List.mem_filterMap.mp hm
      obtain ⟨y, hy, hleg⟩ := recorded_of_done hrecords hx (by simp [hmessage])
      obtain ⟨leg, hleg⟩ := Option.isSome_iff_exists.mp hleg
      refine ⟨_, List.mem_append_right _ (List.mem_map.mpr
        ⟨leg, List.mem_filterMap.mpr ⟨y, hy, hleg⟩, rfl⟩), ?_, ?_, ?_⟩
      · rw [huser]
        exact leg_userId c category h ((List.takeWhile_sublist _).subset hy) hleg _ _ _
      · rw [delivery_dedupeKey, hc.key]
      · rw [delivery_queuedAt]
        exact hc.started

theorem alreadyTold_insertAll {userId : String} (xs : List Insert)
    (h : o.alreadyTold sha256 c userId = true) :
    (o.insertAll sha256 c xs).alreadyTold sha256 c userId = true := by
  unfold Outbox.alreadyTold at h ⊢
  split at h
  · obtain ⟨d, hd, hfound⟩ := List.any_eq_true.mp h
    exact List.any_eq_true.mpr ⟨d, List.mem_append_left _ hd, hfound⟩
  · cases h

theorem fanOut_notified (hc : Carries sha256 key start c) (hkey : key ≠ "")
    (hchannels : c.routedChannels.Nodup) {hs : List Holder} (hn : Notified key start o)
    (emailed : List String)
    (hrecords : ∀ h ∈ hs, o.alreadyTold sha256 c h.userId = false → Records c category h) :
    Notified key start (Outbox.fanOut sha256 c category o emailed hs).1 ∧ ∀ channel address,
        (channel, .address address) ∈ (Outbox.fanOut sha256 c category o emailed hs).1.messages →
          (channel, .address address) ∈ o.messages := by
  induction hs generalizing o emailed with
  | nil => exact ⟨hn, fun _ _ hm => hm⟩
  | cons h hs ih =>
    unfold Outbox.fanOut
    split
    · exact ih hn _ fun h' hh' => hrecords h' (List.mem_cons_of_mem h hh')
    · rename_i hnot
      have hnot : o.alreadyTold sha256 c h.userId = false := by simpa using hnot
      have hheld := hn.holder hc hkey hchannels (hrecords h List.mem_cons_self hnot) hnot
      have haddresses : ∀ channel address, (channel, .address address) ∈
          (o.insertAll sha256 c (c.holderInserts category h)).messages →
          (channel, .address address) ∈ o.messages := by
        intro channel address hm
        rcases List.mem_append.mp hm with hold | hm
        · exact hold
        · have huser := holder_message_user c category h
            ((done_messages c (c.holderInserts category h)).subset hm)
          cases huser
      dsimp only
      split
      · exact ⟨hheld, haddresses⟩
      · have hlater : ∀ h' ∈ hs, (o.insertAll sha256 c
            (c.holderInserts category h)).alreadyTold sha256 c h'.userId = false →
            Records c category h' := by
          intro h' hh' hnot'
          apply hrecords h' (List.mem_cons_of_mem h hh')
          by_contra htold
          have htold : o.alreadyTold sha256 c h'.userId = true := by simpa using htold
          rw [alreadyTold_insertAll _ htold] at hnot'
          cases hnot'
        have hrest := ih hheld (if c.emails category h then h.userId :: emailed else emailed) hlater
        exact ⟨hrest.1, fun channel address hm => haddresses channel address (hrest.2 _ _ hm)⟩

end Users

/-! ## The external addresses -/

section Addresses

variable {sha256 : String → String} {c : EmitEvent} {category : Category} {key : String} {start : ℤ}
  {o : Outbox}

theorem externalInserts_messages (emailed : List String) :
    ((c.externalInserts category emailed).filterMap Insert.message).Sublist
      (c.external.map fun address => (.email, .address address)) := by
  unfold EmitEvent.externalInserts
  induction c.external with
  | nil => exact List.Sublist.refl _
  | cons address addresses ih =>
    rw [List.filterMap_cons, List.map_cons]
    split
    · exact ih.cons _
    · rename_i x hx
      split at hx
      · cases hx
      · obtain ⟨templateId, -, rfl⟩ := Option.map_eq_some_iff.mp hx
        exact ih.cons_cons _

theorem Notified.external (hn : Notified key start o) (haddresses : c.external.Nodup)
    (hunmailed : ∀ address ∈ c.external, (.email, .address address) ∉ o.messages)
    (emailed : List String) :
    Notified key start (o.insertAll sha256 c (c.externalInserts category emailed)) := by
  have hsub := (done_messages c (c.externalInserts category emailed)).trans
    (externalInserts_messages emailed)
  constructor
  · refine List.nodup_append.mpr ⟨hn.nodup, ?_, ?_⟩
    · apply hsub.nodup
      apply haddresses.map
      intro a b hab
      exact Recipient.address.inj (Prod.mk.inj hab).2
    · rintro m hold m' hm rfl
      obtain ⟨address, haddress, rfl⟩ := List.mem_map.mp (hsub.subset hm)
      exact hunmailed address haddress hold
  · intro channel userId hm
    rcases List.mem_append.mp hm with hold | hm
    · obtain ⟨d, hd, hrest⟩ := hn.recorded channel userId hold
      exact ⟨d, List.mem_append_left _ hd, hrest⟩
    · obtain ⟨address, -, haddress⟩ := List.mem_map.mp (hsub.subset hm)
      cases haddress

end Addresses

/-! ## Calls and sequences of calls -/

section Calls

variable {sha256 : String → String} {c : EmitEvent} {key : String} {start : ℤ} {o o' : Outbox}

/-- No channel is routed twice; every user who is about to be told gets a delivery with the message;
and no external address is named twice, or was mailed before. -/
structure Clean (sha256 : String → String) (o : Outbox) (c : EmitEvent) (_ : Outbox) : Prop where
  channels : c.routedChannels.Nodup
  users : ∀ category ∈ c.category, ∀ h ∈ c.recipients,
    o.alreadyTold sha256 c h.userId = false → Records c category h
  addresses : c.external.Nodup
  unmailed : ∀ address ∈ c.external, (.email, .address address) ∉ o.messages

theorem emitEvent_notified (hn : Notified key start o) (hc : Carries sha256 key start c)
    (hkey : key ≠ "") (hclean : Clean sha256 o c o') :
    Notified key start (o.emitEvent sha256 c) := by
  unfold Outbox.emitEvent
  split
  · exact hn
  · rename_i category hcategory
    split
    · exact hn
    · have hfan := fanOut_notified hc hkey hclean.channels hn [] (hclean.users category hcategory)
      split
      · rename_i o₁ heq
        rw [heq] at hfan
        exact hfan.1
      · rename_i o₁ emailed heq
        rw [heq] at hfan
        apply hfan.1.external hclean.addresses
        intro address haddress hm
        exact hclean.unmailed address haddress (hfan.2 _ _ hm)

def emitStep (sha256 : String → String) (o : Outbox) (c : EmitEvent) : Option Outbox :=
  some (o.emitEvent sha256 c)

/-- Calls that carry one dedupe key, one after the other and within 30 days: where every call is
clean, a recipient gets at most one message on a channel. -/
theorem dedupe_key_notifies_once {rawKey : String} (hkey : rawKey ≠ "") {cs : List EmitEvent}
    (hcalls : ∀ c ∈ cs, c.dedupeKey = some rawKey ∧ start ≤ c.queuedAt ∧
      c.now < start + dedupeWindowMs)
    (ho : o.messages = []) (hclean : Along (emitStep sha256) (Clean sha256) o cs)
    (h : exec (emitStep sha256) o cs = some o') (channel : Channel) (recipient : Recipient) :
    o'.messages.count (channel, recipient) ≤ 1 := by
  have hcarries : ∀ c ∈ cs, Carries sha256 (clampDedupeKey sha256 rawKey) start c := by
    intro c hc
    obtain ⟨hraw, hstarted, hwithin⟩ := hcalls c hc
    exact ⟨by rw [hraw]; rfl, hstarted, hwithin⟩
  have hstart : Notified (clampDedupeKey sha256 rawKey) start o :=
    ⟨by simp [ho], fun _ _ hm => by simp [ho] at hm⟩
  have hboth := along_and (emitStep sha256) hclean
    (along_of_forall (emitStep sha256) (P := fun _ c _ =>
      Carries sha256 (clampDedupeKey sha256 rawKey) start c) (fun c hc _ _ => hcarries c hc) o)
  have hend : Notified (clampDedupeKey sha256 rawKey) start o' := by
    refine exec_invariant_along (emitStep sha256) ?_ hstart hboth h
    rintro o₁ c o₂ hn hstep ⟨hclean, hc⟩
    cases hstep
    exact emitEvent_notified hn hc (clampDedupeKey_ne_empty sha256 hkey) hclean
  exact List.nodup_iff_count_le_one.mp hend.nodup (channel, recipient)

end Calls

/-! ## A digest -/

def receipts : Category where
  id := "backup.completed"
  isActive := true
  critical := false
  cls := some .record

def reader : Holder where
  userId := "usr-1"
  digestMode := .daily
  inQuietHours := false
  allowed _ := true
  withinRateLimit _ := true
  template _ := some "tpl-1"

def receiptByEmail : EmitEvent where
  category := some receipts
  notificationsEnabled := true
  objectMuted := false
  routedChannels := [.email]
  resolved := [reader]
  suppressed := false
  externalOnly := false
  externalRecipients := []
  externalRecipientsOptedIn := false
  externalTemplate := none
  getUserEmail _ := some "reader@example.test"
  dedupeKey := some "backup-completed:bkp-1"
  now := 0
  queuedAt := 0
  randomUUID _ := "dlv-1"
  throws _ := false

theorem digest_is_told_twice :
    ¬ ∀ (sha256 : String → String) (rawKey : String) (start : ℤ) (o o' : Outbox)
        (cs : List EmitEvent), rawKey ≠ "" →
      (∀ c ∈ cs, c.dedupeKey = some rawKey ∧ start ≤ c.queuedAt ∧ c.now < start + dedupeWindowMs) →
      o.messages = [] → exec (emitStep sha256) o cs = some o' →
      ∀ channel recipient, o'.messages.count (channel, recipient) ≤ 1 := by
  intro hall
  have htwice := hall (fun _ => "") "backup-completed:bkp-1" 0 ⟨[], []⟩
    ⟨[], [(.email, .user "usr-1"), (.email, .user "usr-1")]⟩ [receiptByEmail, receiptByEmail]
    (by decide) (by
      intro c hc
      simp only [List.mem_cons, List.not_mem_nil, or_false, or_self] at hc
      rw [hc]
      exact ⟨rfl, by decide, by decide⟩) rfl rfl .email (.user "usr-1")
  exact absurd htwice (by decide)

def receiptByBoth : EmitEvent := { receiptByEmail with routedChannels := [.inApp, .email] }

theorem dedupe_key_notifies_once_both_channels : ∃ o' : Outbox,
      exec (emitStep fun _ => "") ⟨[], []⟩ [receiptByBoth, receiptByBoth] = some o' ∧
      (Channel.email, Recipient.user "usr-1") ∈ o'.messages ∧
      o'.messages.count (.email, .user "usr-1") ≤ 1 := by
  have hrecords : ∀ category ∈ receiptByBoth.category, ∀ h ∈ receiptByBoth.recipients,
      Records receiptByBoth category h := by
    intro category hcategory h hh
    cases hcategory
    cases List.mem_singleton.mp hh
    have hnone : (receiptByBoth.holderInserts receipts reader).any receiptByBoth.fails = false := rfl
    refine ⟨fun _ _ _ => List.mem_cons_self, ?_⟩
    intro pre x post heq hfails
    rw [heq, List.any_append, List.any_cons, hfails] at hnone
    simp at hnone
  have hclean : Along (emitStep fun _ => "") (Clean fun _ => "") ⟨[], []⟩
      [receiptByBoth, receiptByBoth] := by
    apply along_of_forall
    intro c hc o o'
    simp only [List.mem_cons, List.not_mem_nil, or_false, or_self] at hc
    rw [hc]
    exact ⟨by decide, fun category hcategory h hh _ => hrecords category hcategory h hh, by decide,
      fun address haddress => by cases haddress⟩
  have hcalls : ∀ c ∈ [receiptByBoth, receiptByBoth], c.dedupeKey = some "backup-completed:bkp-1" ∧
      0 ≤ c.queuedAt ∧ c.now < 0 + dedupeWindowMs := by
    intro c hc
    simp only [List.mem_cons, List.not_mem_nil, or_false, or_self] at hc
    rw [hc]
    exact ⟨rfl, by decide, by decide⟩
  exact ⟨_, rfl, by decide, dedupe_key_notifies_once (by decide) hcalls rfl hclean rfl _ _⟩

end Insula.Notifications
