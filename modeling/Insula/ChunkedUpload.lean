import Insula.Interleaving
import Insula.LenientNumbers
import Insula.PositionalWrites

/-!
# Chunked uploads

`handleWriteRaw` of `file-manager/server.mjs`. A request that names an offset writes its body there
and sets the length of the file to the total it names; requests for other parts of the file run
beside it. Each write call may take only a part of the buffer it is given. The handler goes on
behind the whole buffer. A file that is not there yet is empty.
-/

namespace Insula.ChunkedUpload

open Interleaving (Interleaves mem_schedule_iff)
open LenientNumbers (Text parseInt)
open PositionalWrites (Op run PartOf Covers run_eq_iff)

structure Part where
  buf : List UInt8
  bytesWritten : ℕ
  le : bytesWritten ≤ buf.length

structure Request where
  offsetParam : Option Text
  totalParam : Option Text
  body : List Part
  /-- Whether the call that sets the length goes through; a failure is ignored. -/
  truncated : Bool

namespace Request

def offsetN (r : Request) : ℤ := (r.offsetParam.bind parseInt).getD (-1)

def totalN (r : Request) : ℤ := (r.totalParam.bind parseInt).getD (-1)

def content (r : Request) : List UInt8 := r.body.flatMap Part.buf

end Request

def writes : ℕ → List Part → List (Op UInt8)
  | _, [] => []
  | pos, part :: rest =>
    .write pos (part.buf.take part.bytesWritten) :: writes (pos + part.buf.length) rest

def handleWriteRaw (r : Request) : List (Op UInt8) :=
  if 0 ≤ r.offsetN then
    (if 0 ≤ r.totalN ∧ r.truncated then [.resize r.totalN.toNat] else []) ++
      writes r.offsetN.toNat r.body
  else [.resize 0, .write 0 r.content]

/-- The requests upload the content: their bodies follow one another in it, each names the offset of
its own, and all name its length. -/
structure Uploads (content : List UInt8) (requests : List Request) : Prop where
  ranges : requests.flatMap Request.content = content
  offset : ∀ before r after, requests = before ++ r :: after →
    r.offsetParam.bind parseInt = some ((before.flatMap Request.content).length : ℤ)
  total : ∀ r ∈ requests, r.totalParam.bind parseInt = some (content.length : ℤ)

/-- The requests beside each other: each takes its steps in its own order. -/
def Schedule (requests : List Request) (schedule : List (ℕ × Op UInt8)) : Prop :=
  Interleaves (fun i => (requests[i]?.map handleWriteRaw).getD []) schedule

def uploaded (previous : List UInt8) (schedule : List (ℕ × Op UInt8)) : List UInt8 :=
  run 0 previous (schedule.map Prod.snd)

/-! ## What is written -/

def Takes : ℕ → List Part → ℕ → Prop
  | _, [], _ => False
  | pos, part :: rest, p =>
    (pos ≤ p ∧ p < pos + part.bytesWritten) ∨ Takes (pos + part.buf.length) rest p

def Taken (requests : List Request) (p : ℕ) : Prop :=
  ∃ r ∈ requests, Takes r.offsetN.toNat r.body p

theorem covers_writes (pos : ℕ) (parts : List Part) (p : ℕ) :
    (∃ op ∈ writes pos parts, Covers p op) ↔ Takes pos parts p := by
  induction parts generalizing pos with
  | nil => simp [writes, Takes]
  | cons part rest ih =>
    have hlength : (part.buf.take part.bytesWritten).length = part.bytesWritten := by
      rw [List.length_take, Nat.min_eq_left part.le]
    rw [writes, Takes, ← ih, List.exists_mem_cons_iff, Covers, hlength]

theorem partOf_writes {front back : List UInt8} {parts : List Part} :
    ∀ op ∈ writes front.length parts, PartOf 0 (front ++ parts.flatMap Part.buf ++ back) op := by
  induction parts generalizing front with
  | nil => exact fun _ hop => (List.not_mem_nil hop).elim
  | cons part rest ih =>
    intro op hop
    rw [writes, List.mem_cons] at hop
    rcases hop with rfl | hop
    · have hle := part.le
      refine ⟨?_, fun k hk => ?_⟩
      · simp only [List.length_append, List.flatMap_cons, List.length_take]
        omega
      · rw [List.length_take] at hk
        rw [List.append_assoc, List.getD_append_right _ _ _ _ (by omega), Nat.add_sub_cancel_left,
          List.flatMap_cons, List.append_assoc, List.getD_append _ _ _ _ (by omega),
          List.getD_eq_getElem?_getD, List.getElem?_take_of_lt (by omega),
          List.getD_eq_getElem?_getD]
    · rw [← List.length_append] at hop
      have hpart := ih op hop
      rwa [List.append_assoc front, ← List.flatMap_cons (f := Part.buf)] at hpart

section Uploads

variable {content : List UInt8} {requests : List Request} {r : Request}

theorem Uploads.totalN_eq (h : Uploads content requests) (hr : r ∈ requests) :
    r.totalN = content.length := by
  rw [Request.totalN, h.total r hr, Option.getD_some]

theorem Uploads.handle_eq (h : Uploads content requests) {before after : List Request}
    (hr : requests = before ++ r :: after) :
    r.offsetN.toNat = (before.flatMap Request.content).length ∧ handleWriteRaw r =
        (if r.truncated then [.resize content.length] else []) ++ writes r.offsetN.toNat r.body := by
  have hmem : r ∈ requests := by rw [hr]; exact List.mem_append_right _ List.mem_cons_self
  have hoffset : r.offsetN = ((before.flatMap Request.content).length : ℤ) := by
    rw [Request.offsetN, h.offset before r after hr, Option.getD_some]
  have htotal := h.totalN_eq hmem
  refine ⟨by rw [hoffset, Int.toNat_natCast], ?_⟩
  rw [handleWriteRaw, if_pos (by rw [hoffset]; exact Int.natCast_nonneg _), htotal, Int.toNat_natCast]
  congr 1
  by_cases ht : r.truncated = true
  · rw [if_pos ⟨Int.natCast_nonneg _, ht⟩, if_pos ht]
  · rw [if_neg fun hboth => ht hboth.2, if_neg ht]

/-- Every operation of an upload puts a part of the content in its place. -/
theorem Uploads.partOf (h : Uploads content requests) (hr : r ∈ requests) {op : Op UInt8}
    (hop : op ∈ handleWriteRaw r) : PartOf 0 content op := by
  obtain ⟨before, after, hsplit⟩ := List.append_of_mem hr
  obtain ⟨hoffset, hhandle⟩ := h.handle_eq hsplit
  rw [hhandle, List.mem_append, hoffset] at hop
  rcases hop with hop | hop
  · split at hop
    · rw [List.mem_singleton.mp hop]
      rfl
    · exact (List.not_mem_nil hop).elim
  · have hpart := @partOf_writes _ (after.flatMap Request.content) _ op hop
    have hcontent : before.flatMap Request.content ++ r.body.flatMap Part.buf ++
        after.flatMap Request.content = content := by
      rw [← h.ranges, hsplit, List.flatMap_append, List.flatMap_cons, List.append_assoc]
      rfl
    rwa [hcontent] at hpart

theorem Uploads.resizes_iff (h : Uploads content requests) (hr : r ∈ requests) :
    (∃ n, .resize n ∈ handleWriteRaw r) ↔ r.truncated = true := by
  obtain ⟨before, after, hsplit⟩ := List.append_of_mem hr
  have hnone : ∀ pos parts n, Op.resize n ∉ writes pos parts := by
    intro pos parts n
    induction parts generalizing pos with
    | nil => exact List.not_mem_nil
    | cons part rest ih => simp [writes, ih]
  rw [(h.handle_eq hsplit).2]
  cases r.truncated <;> simp [hnone]

theorem Uploads.covers_iff (h : Uploads content requests) (hr : r ∈ requests) (p : ℕ) :
    (∃ op ∈ handleWriteRaw r, Covers p op) ↔ Takes r.offsetN.toNat r.body p := by
  obtain ⟨before, after, hsplit⟩ := List.append_of_mem hr
  rw [(h.handle_eq hsplit).2, ← covers_writes]
  constructor
  · rintro ⟨op, hop, hcovers⟩
    rcases List.mem_append.mp hop with hop | hop
    · split at hop
      · rw [List.mem_singleton.mp hop] at hcovers
        exact hcovers.elim
      · exact (List.not_mem_nil hop).elim
    · exact ⟨op, hop, hcovers⟩
  · rintro ⟨op, hop, hcovers⟩
    exact ⟨op, List.mem_append_right _ hop, hcovers⟩

end Uploads

/-! ## All requests together -/

theorem mem_schedule {requests : List Request} {schedule : List (ℕ × Op UInt8)}
    (h : Schedule requests schedule) {op : Op UInt8} :
    op ∈ schedule.map Prod.snd ↔ ∃ r ∈ requests, op ∈ handleWriteRaw r := by
  constructor
  · intro hop
    obtain ⟨⟨i, op'⟩, hmem, rfl⟩ := List.mem_map.mp hop
    have htrace := (mem_schedule_iff h).mp hmem
    cases hr : requests[i]? with
    | none =>
      rw [hr] at htrace
      exact (List.not_mem_nil htrace).elim
    | some r =>
      rw [hr] at htrace
      exact ⟨r, List.mem_of_getElem? hr, htrace⟩
  · rintro ⟨r, hr, hop⟩
    obtain ⟨i, hi⟩ := List.getElem?_of_mem hr
    refine List.mem_map.mpr ⟨(i, op), (mem_schedule_iff h).mpr ?_, rfl⟩
    rw [hi]
    exact hop

/-- The length of the file is set by a request, or the file was as long before, or it was shorter
and its last byte is written. -/
def LengthSettled (previous content : List UInt8) (requests : List Request) : Prop :=
  (∃ r ∈ requests, r.truncated = true) ∨ previous.length = content.length ∨
    (previous.length < content.length ∧ Taken requests (content.length - 1))

/-- In whatever order the requests of an upload take their steps, the file is exactly the content
when its length is settled and every byte that a short write left out is what the file held there
before, or zero behind its end. -/
theorem uploaded_iff {content : List UInt8} {requests : List Request} (h : Uploads content requests)
    (previous : List UInt8) {schedule : List (ℕ × Op UInt8)} (hs : Schedule requests schedule) :
    uploaded previous schedule = content ↔ LengthSettled previous content requests ∧
        ∀ p < content.length, ¬ Taken requests p → previous.getD p 0 = content.getD p 0 := by
  have hparts : ∀ op ∈ schedule.map Prod.snd, PartOf 0 content op := by
    intro op hop
    obtain ⟨r, hr, hop⟩ := (mem_schedule hs).mp hop
    exact h.partOf hr hop
  have hresize : (∃ n, .resize n ∈ schedule.map Prod.snd) ↔ ∃ r ∈ requests, r.truncated = true := by
    constructor
    · rintro ⟨n, hn⟩
      obtain ⟨r, hr, hn⟩ := (mem_schedule hs).mp hn
      exact ⟨r, hr, (h.resizes_iff hr).mp ⟨n, hn⟩⟩
    · rintro ⟨r, hr, ht⟩
      obtain ⟨n, hn⟩ := (h.resizes_iff hr).mpr ht
      exact ⟨n, (mem_schedule hs).mpr ⟨r, hr, hn⟩⟩
  have htaken : ∀ p, (∃ op ∈ schedule.map Prod.snd, Covers p op) ↔ Taken requests p := by
    intro p
    constructor
    · rintro ⟨op, hop, hcovers⟩
      obtain ⟨r, hr, hop⟩ := (mem_schedule hs).mp hop
      exact ⟨r, hr, (h.covers_iff hr p).mp ⟨op, hop, hcovers⟩⟩
    · rintro ⟨r, hr, htakes⟩
      obtain ⟨op, hop, hcovers⟩ := (h.covers_iff hr p).mpr htakes
      exact ⟨op, (mem_schedule hs).mpr ⟨r, hr, hop⟩, hcovers⟩
  have hnone : ∀ p, (∀ op ∈ schedule.map Prod.snd, ¬ Covers p op) ↔ ¬ Taken requests p := by
    intro p
    rw [← htaken p]
    simp only [not_exists, not_and]
  rw [uploaded, run_eq_iff hparts, LengthSettled, hresize, htaken]
  simp only [hnone]

/-! ## One request and two -/

def oneRequest (bytesWritten : ℕ) (h : bytesWritten ≤ 2) : Request :=
  ⟨some ['0'], some ['2'], [⟨[1, 2], bytesWritten, h⟩], true⟩

theorem uploads_one {n : ℕ} (h : n ≤ 2) : Uploads [1, 2] [oneRequest n h] where
  ranges := rfl
  offset := by
    intro before r after heq
    cases before with
    | nil =>
      rw [← (List.cons.inj heq).1]
      rfl
    | cons _ tail =>
      have hempty : tail ++ r :: after = [] := (List.cons.inj heq).2.symm
      exact absurd hempty (by simp)
  total := by
    intro r hr
    rw [List.mem_singleton.mp hr]
    rfl

theorem schedule_one {n : ℕ} (h : n ≤ 2) :
    Schedule [oneRequest n h] ((handleWriteRaw (oneRequest n h)).map fun op => (0, op)) := by
  intro i
  cases i with
  | zero => rfl
  | succ i => rfl

def firstPart : Request := ⟨some ['0'], some ['3'], [⟨[1, 2], 2, Nat.le_refl 2⟩], false⟩

def secondPart : Request := ⟨some ['2'], some ['3'], [⟨[3], 1, Nat.le_refl 1⟩], true⟩

theorem uploads_two : Uploads [1, 2, 3] [firstPart, secondPart] where
  ranges := rfl
  offset := by
    intro before r after heq
    cases before with
    | nil =>
      rw [← (List.cons.inj heq).1]
      rfl
    | cons _ before =>
      obtain ⟨rfl, hrest⟩ := List.cons.inj heq
      cases before with
      | nil =>
        rw [← (List.cons.inj hrest).1]
        rfl
      | cons _ tail =>
        have hempty : tail ++ r :: after = [] := (List.cons.inj hrest).2.symm
        exact absurd hempty (by simp)
  total := by
    intro r hr
    simp only [List.mem_cons, List.not_mem_nil, or_false] at hr
    rcases hr with rfl | rfl <;> rfl

/-- The second request sets the length, the first writes, and then the second. -/
def beside : List (ℕ × Op UInt8) := [(1, .resize 3), (0, .write 0 [1, 2]), (1, .write 2 [3])]

theorem schedule_beside : Schedule [firstPart, secondPart] beside := by
  intro i
  match i with
  | 0 => rfl
  | 1 => rfl
  | _ + 2 => rfl

theorem uploaded_whole : uploaded [9, 9, 9, 9] beside = [1, 2, 3] := by
  refine (uploaded_iff uploads_two [9, 9, 9, 9] schedule_beside).mpr ⟨.inl ?_, ?_⟩
  · exact ⟨secondPart, by simp, rfl⟩
  · intro p hp hnot
    rcases Nat.lt_or_ge p 2 with hlt | hge
    · exact (hnot ⟨firstPart, by simp, .inl ⟨Nat.zero_le _, hlt⟩⟩).elim
    · exact (hnot ⟨secondPart, by simp, .inl ⟨hge, hp⟩⟩).elim

/-- A write call that takes one byte of two: the other stays what the length made of it. -/
theorem short_write_lost : ¬ ∀ content requests, Uploads content requests →
    ∀ previous schedule, Schedule requests schedule → uploaded previous schedule = content := by
  intro h
  have hlost := h [1, 2] [oneRequest 1 (by decide)] (uploads_one _) [] _ (schedule_one _)
  exact absurd hlost (by decide)

end Insula.ChunkedUpload
