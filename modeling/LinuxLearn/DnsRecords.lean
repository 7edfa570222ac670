import LinuxLearn.DnsResponse

/-!
# The A records of a response

A well-formed response has questions without pointers, and answer records
whose owners are pointers. The A records with four bytes of data should be
found, each with its owner's name and its address.

`dns_parse_response` finds them where every record but the last that is of
another type than A and CNAME has no data: the data would be taken for the
next record. The names have to be such that one byte of a pointer will do, and
those of A records without a NUL (`finds_iff`).
-/

namespace Dns

/-- **A record**: its owner's labels, its type and its data. -/
structure Record where
  owner : List (List UInt8)
  type : UInt16
  data : List UInt8

/-- An A record with four bytes of data. -/
def Record.IsA (r : Record) : Prop := r.type = DNS_HOST ∧ r.data.length = 4

instance : DecidablePred Record.IsA := fun _ => inferInstanceAs (Decidable (_ ∧ _))

/-- **A record at an offset**: its owner is a pointer to one of the first 256 bytes, its data
is as long as it says and, in a CNAME record, a name. -/
structure RecordAt (m : Bytes) (p : ℕ) (r : Record) : Prop where
  pointer : m p = 192
  owner : Name m p (p + 2) r.owner
  short : (dotted r.owner).length ≤ 127
  type : recordType m p = r.type
  length : dataLength m p = r.data.length
  data : m.load (p + 12) r.data.length = r.data
  cname : r.type = DNS_CNAME → ∃ labels, Name m (p + 12) (p + 12 + r.data.length) labels
    ∧ (dotted labels).length ≤ 127

/-- **Records**, one behind the other, up to an offset. -/
inductive RecordsAt (m : Bytes) : ℕ → List Record → ℕ → Prop
  | nil {p : ℕ} : RecordsAt m p [] p
  | cons {p e : ℕ} {r : Record} {rs : List Record} (h : RecordAt m p r)
    (hrest : RecordsAt m (p + 12 + r.data.length) rs e) : RecordsAt m p (r :: rs) e

/-- **Questions**, so many, one behind the other: a name without pointers, a type and a
class. -/
inductive QuestionsAt (m : Bytes) : ℕ → ℕ → ℕ → Prop
  | nil {p : ℕ} : QuestionsAt m 0 p p
  | cons {n p e : ℕ} {labels : List (List UInt8)}
    (hlabels : ∀ l ∈ labels, 1 ≤ l.length ∧ l.length ≤ 63)
    (hname : m.load p (wire labels).length = wire labels)
    (hrest : QuestionsAt m n (p + (wire labels).length + 4) e) : QuestionsAt m (n + 1) p e

/-- **A well-formed response** of at most 1024 bytes. -/
structure Response where
  datagram : List UInt8
  answersAt : ℕ
  records : List Record
  stop : ℕ
  questions : QuestionsAt (Bytes.ofList datagram) (questionCount (Bytes.ofList datagram)) 12 answersAt
  answers : RecordsAt (Bytes.ofList datagram) answersAt records stop
  count : answerCount (Bytes.ofList datagram) = records.length
  whole : stop ≤ datagram.length
  short : datagram.length ≤ 1024

/-- **What should be found**: the owners and addresses of the A records, in order. -/
def expected (rs : List Record) : List Item :=
  (rs.filter Record.IsA).map (fun r => ⟨dotted r.owner, inetNtop r.data⟩)

/-- **All A records are found**, inside the response and the buffers for names. -/
def Finds (r : Response) : Prop :=
  ∃ fuel log, dnsParseResponse true (Bytes.ofList r.datagram) fuel
      = some ((((expected r.records).length : ℤ), some (expected r.records)), log)
    ∧ ∀ a ∈ log, a.Inside 1024

/-- **The owner's name is read**, as far as a string goes. -/
def OwnerReads (m : Bytes) (p : ℕ) (r : Record) : Prop :=
  ∃ t, Spells m p t ∧ t.takeWhile (· ≠ 0) = dotted r.owner

/-- **Records that are read as they are**: their names can be read, and those of A records
are their owners'. Data that is not skipped is behind all records, or is no data; or else
what is found from there on is what should be. -/
def ReadsAs (m : Bytes) : ℕ → List Record → Prop
  | _, [] => True
  | p, r :: rs =>
    NameFits m p ∧ (r.type = DNS_CNAME → NameFits m (p + 12)) ∧ (r.IsA → OwnerReads m p r)
      ∧ if r.type = DNS_CNAME ∨ r.type = DNS_HOST ∨ r.data = [] then
          ReadsAs m (p + 12 + r.data.length) rs
        else Scans m rs.length (p + 12) (expected rs) ∧ RecordsFit m rs.length (p + 12)

section

variable {m : Bytes} {n p e : ℕ} {r : Record} {rs : List Record} {t : List UInt8}
  {items items' : List Item}

/-! ## Questions -/

/-- A name without pointers is skipped. -/
theorem skips_wire {labels : List (List UInt8)} (hlabels : ∀ l ∈ labels, 1 ≤ l.length ∧ l.length ≤ 63)
    (h : m.load p (wire labels).length = wire labels) : Skips m p (p + (wire labels).length) := by
  induction labels generalizing p with
  | nil => exact .root (List.cons.inj (Bytes.load_succ.symm.trans h)).1
  | cons l labels ih =>
    obtain ⟨hl, hrest⟩ := List.forall_mem_cons.mp hlabels
    obtain ⟨⟨-, h0, -⟩, -, hend, hwire⟩ := wire_cons_at hl h
    have hskips := ih hrest hwire
    rw [wire, List.length_append, List.length_cons, ← Nat.add_assoc, ← hend]
    exact .label h0 hskips

theorem QuestionsAt.skipsAll (h : QuestionsAt m n p e) : SkipsAll m n p e := by
  induction h with
  | nil => exact .nil
  | cons hlabels hname _ ih => exact .cons (skips_wire hlabels hname) ih

theorem RecordsAt.le (h : RecordsAt m p rs e) : p ≤ e := by
  induction h with
  | nil => exact le_rfl
  | cons _ _ ih => omega

/-! ## Records -/

/-- What is found in records is one thing. -/
theorem Scans.unique (h : Scans m n p items) (h' : Scans m n p items') : items = items' := by
  induction h generalizing items' with
  | nil =>
    cases h'
    rfl
  | cons howner _ _ ih =>
    cases h' with
    | cons howner' _ hrest =>
      rw [howner.unique howner', ih hrest]

/-- The string in a buffer for names. -/
theorem takeWhile_load (h : t.length ≤ 128) :
    ((Bytes.ofList t).load 0 128).takeWhile (· ≠ 0) = t.takeWhile (· ≠ 0) := by
  obtain ⟨k, hk⟩ := Nat.exists_eq_add_of_le h
  have htext : (Bytes.ofList t).load 0 t.length = t := by
    rw [← Bytes.store_zero]
    exact Bytes.load_store
  have hzeros : ((Bytes.ofList t).load t.length k).takeWhile (· ≠ 0) = [] := by
    cases k with
    | zero => rfl
    | succ k =>
      rw [Bytes.load_succ, List.takeWhile_cons_of_neg]
      simp [Bytes.ofList]
  rw [hk, Bytes.load_add, htext, Nat.zero_add, List.takeWhile_append, hzeros, List.append_nil]
  split
  · next hlen => exact ((List.takeWhile_prefix _).eq_of_length hlen).symm
  · rfl

theorem RecordAt.isAddress_iff (h : RecordAt m p r) : IsAddress m p ↔ r.IsA := by
  unfold IsAddress Record.IsA
  rw [h.type, h.length]

/-- A record that ends in the response can be read if its names can. -/
theorem RecordAt.fits_iff (h : RecordAt m p r) (hend : p + 12 + r.data.length ≤ 1024) :
    RecordFits m p ↔ NameFits m p ∧ (r.type = DNS_CNAME → NameFits m (p + 12)) := by
  rw [← h.type]
  constructor
  · exact fun hfits => ⟨hfits.owner, hfits.cname⟩
  · rintro ⟨howner, hcname⟩
    refine ⟨howner, by omega, hcname, fun haddress => ?_⟩
    have hlen := haddress.2
    rw [h.length] at hlen
    omega

/-- The item of a record. -/
theorem RecordAt.itemAt_eq (h : RecordAt m p r) (ht : t.length ≤ 128) :
    itemAt m p t = if r.IsA then some ⟨t.takeWhile (· ≠ 0), inetNtop r.data⟩ else none := by
  unfold itemAt
  rw [takeWhile_load ht]
  by_cases ha : r.IsA
  · have hdata := h.data
    rw [ha.2] at hdata
    rw [if_pos (h.isAddress_iff.mpr ha), if_pos ha, hdata]
  · rw [if_neg (mt h.isAddress_iff.mp ha), if_neg ha]

/-- **One record, and those behind it.** -/
theorem RecordAt.scans_iff (h : RecordAt m p r) (hend : p + 12 + r.data.length ≤ 1024) :
    (Scans m (n + 1) p (expected (r :: rs)) ∧ RecordsFit m (n + 1) p)
      ↔ NameFits m p ∧ (r.type = DNS_CNAME → NameFits m (p + 12)) ∧ (r.IsA → OwnerReads m p r)
        ∧ Scans m n (nextRecord m p) (expected rs) ∧ RecordsFit m n (nextRecord m p) := by
  have hitems : ∀ t, t.length ≤ 128 → ∀ items,
      expected (r :: rs) = (itemAt m p t).toList ++ items
        ↔ (r.IsA → t.takeWhile (· ≠ 0) = dotted r.owner) ∧ items = expected rs := by
    intro t ht items
    rw [h.itemAt_eq ht]
    unfold expected
    by_cases ha : r.IsA
    · rw [if_pos ha, List.filter_cons_of_pos (by simpa using ha), List.map_cons, Option.toList_some,
        List.singleton_append, List.cons.injEq, Item.mk.injEq, and_iff_left rfl]
      constructor
      · rintro ⟨hname, hrest⟩
        exact ⟨fun _ => hname.symm, hrest.symm⟩
      · rintro ⟨hname, hrest⟩
        exact ⟨(hname ha).symm, hrest.symm⟩
    · rw [if_neg ha, List.filter_cons_of_neg (by simpa using ha), Option.toList_none,
        List.nil_append]
      constructor
      · exact fun hrest => ⟨fun h => absurd h ha, hrest.symm⟩
      · exact fun h => h.2.symm
  show (_ ∧ RecordFits m p ∧ RecordsFit m n (nextRecord m p)) ↔ _
  rw [h.fits_iff hend]
  constructor
  · rintro ⟨hscans, ⟨howner, hcname⟩, hfit⟩
    obtain ⟨-, t, ht, hlen⟩ := id howner
    generalize hall : expected (r :: rs) = all at hscans
    cases hscans with
    | cons ht' _ hrest =>
      obtain rfl := ht.unique ht'
      obtain ⟨hname, rfl⟩ := (hitems t hlen _).mp hall
      exact ⟨howner, hcname, fun ha => ⟨t, ht, hname ha⟩, hrest, hfit⟩
  · rintro ⟨howner, hcname, hreads, hscans, hfit⟩
    refine ⟨?_, ⟨howner, hcname⟩, hfit⟩
    obtain ⟨-, t, ht, hlen⟩ := howner
    have hname : r.IsA → t.takeWhile (· ≠ 0) = dotted r.owner := by
      intro ha
      obtain ⟨t', ht', hname⟩ := hreads ha
      rwa [ht.unique ht']
    rw [(hitems t hlen (expected rs)).mpr ⟨hname, rfl⟩]
    refine .cons ht (fun hc => ?_) hscans
    exact (hcname (h.type.symm.trans hc)).1.exists_spells

/-- **Records are found** where they are read as they are. -/
theorem RecordsAt.scans_iff (h : RecordsAt m p rs e) (hend : e ≤ 1024) :
    (Scans m rs.length p (expected rs) ∧ RecordsFit m rs.length p) ↔ ReadsAs m p rs := by
  induction h with
  | nil => exact iff_of_true ⟨.nil, trivial⟩ trivial
  | @cons p e r rs h hrest ih =>
    have hdata : p + 12 + r.data.length ≤ 1024 := hrest.le.trans hend
    refine (h.scans_iff hdata).trans ?_
    have hnext : nextRecord m p
        = if r.type = DNS_CNAME ∨ r.type = DNS_HOST then p + 12 + r.data.length else p + 12 := by
      unfold nextRecord
      rw [h.type, h.length]
    refine and_congr_right (fun _ => and_congr_right (fun _ => and_congr_right (fun _ => ?_)))
    by_cases hskipped : r.type = DNS_CNAME ∨ r.type = DNS_HOST
    · rw [hnext, if_pos hskipped, if_pos (hskipped.imp id Or.inl)]
      exact ih hend
    · rw [hnext, if_neg hskipped]
      by_cases hempty : r.data = []
      · rw [if_pos (Or.inr (Or.inr hempty))]
        have hih := ih hend
        rwa [hempty] at hih ⊢
      · rw [if_neg]
        rintro (hc | hh | hd)
        · exact hskipped (Or.inl hc)
        · exact hskipped (Or.inr hh)
        · exact hempty hd

/-- **When all A records are found.** -/
theorem finds_iff (r : Response) :
    Finds r ↔ ReadsAs (Bytes.ofList r.datagram) r.answersAt r.records := by
  have hstop : r.stop ≤ 1024 := r.whole.trans r.short
  have hskips := r.questions.skipsAll
  have hquestions : r.answersAt ≤ 1028 := (r.answers.le.trans hstop).trans (by decide)
  rw [← r.answers.scans_iff hstop, ← r.count]
  constructor
  · rintro ⟨fuel, log, hrun, hinside⟩
    obtain ⟨e, hskips', hscans, hin⟩ := scans_of_dnsParseResponse hrun
    obtain rfl := hskips.unique hskips'
    obtain ⟨items, hitems, heq⟩ := hscans rfl
    obtain rfl := Option.some.inj (congrArg Prod.snd heq)
    exact ⟨hitems, (hin.mp hinside).2 rfl⟩
  · rintro ⟨hscans, hfit⟩
    obtain ⟨fuel, log, hrun⟩ := dnsParseResponse_of_scans hskips hscans
    obtain ⟨e, hskips', -, hin⟩ := scans_of_dnsParseResponse hrun
    obtain rfl := hskips.unique hskips'
    exact ⟨fuel, log, hrun, hin.mpr ⟨Or.inr hquestions, fun _ => hfit⟩⟩

end

/-- The question for `a`, and two answers: an AAAA record, and an A record behind it. -/
def aaaaFirst : List UInt8 :=
  [0, 0, 0, 0, 0, 1, 0, 2, 0, 0, 0, 0, 1, 97, 0, 0, 1, 0, 1]
    ++ [192, 12, 0, 28, 0, 1, 0, 0, 0, 0, 0, 16, 0, 0, 0, 0, 0, 0, 0, 0, 0, 0, 0, 0, 0, 0, 0, 0]
    ++ [192, 12, 0, 1, 0, 1, 0, 0, 0, 0, 0, 4, 1, 2, 3, 4]

/-- The owner of both. -/
theorem aaaaFirst_owner {p : ℕ} (hp : 12 < p) (h0 : Bytes.ofList aaaaFirst p = 192)
    (h1 : Bytes.ofList aaaaFirst (p + 1) = 12) : Name (Bytes.ofList aaaaFirst) p (p + 2) [[97]] := by
  have hoffset : pointerOffset (Bytes.ofList aaaaFirst) p = 12 := by
    unfold pointerOffset
    rw [h0, h1]
    rfl
  have hlabel : Name (Bytes.ofList aaaaFirst) 12 15 [[97]] :=
    .label (p := 12) (by decide) (by decide) (.root (p := 14) (by decide))
  exact .pointer (h0 ▸ by decide) (hoffset.trans_lt hp) (hoffset ▸ hlabel)

/-- It is a well-formed response. -/
def aaaaResponse : Response where
  datagram := aaaaFirst
  answersAt := 19
  records := [⟨[[97]], 28, List.replicate 16 0⟩, ⟨[[97]], 1, [1, 2, 3, 4]⟩]
  stop := 63
  questions := .cons (show ∀ l ∈ [[(97 : UInt8)]], 1 ≤ l.length ∧ l.length ≤ 63 by decide)
    (by decide) .nil
  answers :=
    .cons ⟨by decide, aaaaFirst_owner (by decide) (by decide) (by decide), by decide, by decide,
        by decide, by decide, fun h => absurd h (by decide)⟩
      (.cons ⟨by decide, aaaaFirst_owner (by decide) (by decide) (by decide), by decide, by decide,
        by decide, by decide, fun h => absurd h (by decide)⟩ .nil)
  count := by decide
  whole := by decide
  short := by decide

/-- **The A record behind an AAAA record is not found.** -/
theorem not_finds : ¬ Finds aaaaResponse := by
  rintro ⟨fuel, log, hrun, -⟩
  have hname : Spells (Bytes.ofList aaaaFirst) 19 (labelText (Bytes.ofList aaaaFirst) 12 ++ []) :=
    .pointer (by decide) (.label (p := 12) (by decide) (by decide) (.root (p := 14) (by decide)))
  have hsecond : nextRecord (Bytes.ofList aaaaFirst) 19 = 31 := by decide
  -- the second round starts at the data of the first record
  have hrest : Scans (Bytes.ofList aaaaFirst) 1 (nextRecord (Bytes.ofList aaaaFirst) 19) [] := by
    rw [hsecond]
    exact .cons (.root (by decide)) (fun h => absurd h (by decide)) .nil
  have hnone : Scans (Bytes.ofList aaaaFirst) 2 19 [] :=
    .cons hname (fun h => absurd h (by decide)) hrest
  obtain ⟨e, hskips, hscans, -⟩ := scans_of_dnsParseResponse hrun
  obtain rfl : 19 = e := aaaaResponse.questions.skipsAll.unique hskips
  obtain ⟨items, hitems, heq⟩ := hscans rfl
  obtain rfl : [] = items := hnone.unique hitems
  exact absurd (Option.some.inj (congrArg Prod.snd heq)) (by decide)

end Dns
