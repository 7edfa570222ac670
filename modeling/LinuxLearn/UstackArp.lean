import LinuxLearn.UstackFrame

/-!
# The ARP table

Who has sent something is in the ARP table, with the Ethernet address it came
from: `ng_arp_entry_insert` puts an entry in front of the list where there is
none. Nothing takes one out, and nothing changes one.

The table counts its entries, and `ng_get_dst_macaddr` looks at no more of
them than there are counted. The count is right (`ArpTable.Counted`), so it
looks at all of them, and the table is what it stands for: the address that
each sender was first seen with (`ngArpEntryInsert_spec`).
-/

namespace Ustack

/-- **`struct arp_entry`.** -/
structure ArpEntry where
  ip : UInt32
  hwaddr : Mac
deriving DecidableEq

/-- **`struct arp_table`.** -/
structure ArpTable where
  /-- The list, from the head on. -/
  entries : List ArpEntry
  count : ℤ

/-- The loop of `ng_get_dst_macaddr`, with what is left of the count. -/
def ArpEntry.walk (dip : UInt32) : ℤ → List ArpEntry → Option Mac
  | _, [] => none
  | count, iter :: entries =>
    if count = 0 then none
    else if dip = iter.ip then some iter.hwaddr
    else walk dip (count - 1) entries

namespace ArpTable

/-- **`arp_table_instance`**, when it is called first. -/
def init : ArpTable := ⟨[], 0⟩

/-- **`ng_get_dst_macaddr`.** -/
def ngGetDstMacaddr (t : ArpTable) (dip : UInt32) : Option Mac := ArpEntry.walk dip t.count t.entries

/-- **`ng_arp_entry_insert`**; `ok` is whether there is memory for an entry. -/
def ngArpEntryInsert (t : ArpTable) (ip : UInt32) (mac : Mac) (ok : Bool) :
    Except Stop (ℤ × ArpTable) :=
  match t.ngGetDstMacaddr ip with
  | some _ => .ok (0, t)
  | none =>
    if ¬ ok then .ok (1, t)
    else if t.count = 2 ^ 31 - 1 then .error .overflow
    else .ok (1, { entries := ⟨ip, mac⟩ :: t.entries, count := t.count + 1 })

/-- **The count is right.** -/
def Counted (t : ArpTable) : Prop := t.count = t.entries.length

section Table

variable {t t' : ArpTable} {ip dip : UInt32} {mac : Mac} {ok : Bool} {ret : ℤ}

theorem init_counted : init.Counted := rfl

/-- **All entries are looked at**: the first with the address is found. -/
theorem ngGetDstMacaddr_eq (h : t.Counted) (dip : UInt32) :
    t.ngGetDstMacaddr dip = (t.entries.find? (fun e => dip = e.ip)).map ArpEntry.hwaddr := by
  have hwalk : ∀ entries : List ArpEntry, ArpEntry.walk dip entries.length entries
      = (entries.find? (fun e => dip = e.ip)).map ArpEntry.hwaddr := by
    intro entries
    induction entries with
    | nil => rfl
    | cons e entries ih =>
      have hcount : ((e :: entries).length : ℤ) - 1 = entries.length := by
        rw [List.length_cons, Nat.cast_succ, add_sub_cancel_right]
      have hne : ((e :: entries).length : ℤ) ≠ 0 := Nat.cast_ne_zero.mpr (Nat.succ_ne_zero _)
      unfold ArpEntry.walk
      rw [if_neg hne, hcount, ih, List.find?_cons]
      by_cases he : dip = e.ip
      · rw [if_pos he, decide_eq_true he]
        rfl
      · rw [if_neg he, decide_eq_false he]
  unfold ngGetDstMacaddr
  rw [show t.count = _ from h, hwalk]

/-- **What an insertion does**: a sender who was not known is, with the address it has come
from, and everybody else is as before. -/
theorem ngArpEntryInsert_spec (h : t.Counted) (hok : t.ngArpEntryInsert ip mac ok = .ok (ret, t')) :
    t'.Counted ∧ ∀ dip, t'.ngGetDstMacaddr dip
      = (t.ngGetDstMacaddr dip).or (if dip = ip ∧ ok = true then some mac else none) := by
  unfold ngArpEntryInsert at hok
  cases hget : t.ngGetDstMacaddr ip with
  | some hwaddr =>
    rw [hget] at hok
    cases hok
    refine ⟨h, fun dip => ?_⟩
    by_cases hdip : dip = ip
    · rw [hdip, hget, Option.some_or]
    · rw [if_neg (fun hand => hdip hand.1), Option.or_none]
  | none =>
    rw [hget] at hok
    simp only at hok
    split at hok
    · next hmem =>
      cases hok
      refine ⟨h, fun dip => ?_⟩
      rw [if_neg (fun hand => hmem hand.2), Option.or_none]
    · next hmem =>
      split at hok
      · cases hok
      · cases hok
        have hcounted : Counted ⟨⟨ip, mac⟩ :: t.entries, t.count + 1⟩ := by
          show t.count + 1 = ((⟨ip, mac⟩ :: t.entries : List ArpEntry).length : ℤ)
          rw [show t.count = _ from h, List.length_cons, Nat.cast_succ]
        refine ⟨hcounted, fun dip => ?_⟩
        rw [ngGetDstMacaddr_eq hcounted, List.find?_cons]
        by_cases hdip : dip = ip
        · rw [decide_eq_true hdip, hdip, hget, if_pos ⟨rfl, not_not.mp hmem⟩]
          rfl
        · rw [decide_eq_false hdip, if_neg (fun hand => hdip hand.1), Option.or_none,
            ngGetDstMacaddr_eq h]

/-- **An address that is known** stays as it is. -/
theorem ngGetDstMacaddr_insert (h : t.Counted)
    (hok : t.ngArpEntryInsert ip mac ok = .ok (ret, t')) (hdip : t.ngGetDstMacaddr dip = some mac') :
    t'.ngGetDstMacaddr dip = some mac' := by
  rw [(ngArpEntryInsert_spec h hok).2 dip, hdip, Option.some_or]

/-- **The sender is known**, if there was memory for it. -/
theorem isSome_ngGetDstMacaddr_insert (h : t.Counted)
    (hok : t.ngArpEntryInsert ip mac true = .ok (ret, t')) : (t'.ngGetDstMacaddr ip).isSome := by
  rw [(ngArpEntryInsert_spec h hok).2 ip, if_pos ⟨rfl, rfl⟩, Option.isSome_or, Option.isSome_some,
    Bool.or_true]

end Table

end ArpTable

end Ustack
