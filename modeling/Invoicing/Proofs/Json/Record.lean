import Invoicing.Json.Record
import Invoicing.Proofs.Decimal.Text
import Invoicing.Proofs.Success

/-!
# Records are read back

A record that has each of its fields once is read as its members. An amount is
read back from its text, and one that may be absent as absent or as the amount.
-/
namespace Invoicing.Json

variable {slots : List Slot} {members : List (String × Json)} {name : String} {α : Type}

theorem named?_members (members : List (String × Json)) :
    named? (members.map fun m => (some m.1, m.2)) = some members := by
  have h : named? (members.map fun m => (some m.1, m.2)) = some (members.map id) :=
    mapM_map_eq_some fun _ _ => rfl
  rwa [List.map_id] at h

/-- A record of all the fields that there may be. -/
theorem record?_record (hkeys : Entries.keys members = slots.map Slot.name)
    (hslots : (slots.map Slot.name).Nodup) : record? slots (record members) = some members := by
  have hknown : ∀ m ∈ members, (slots.any fun slot => slot.name = m.1) = true := by
    intro m hm
    have hkey : m.1 ∈ slots.map Slot.name := hkeys ▸ List.mem_map.mpr ⟨m, hm, rfl⟩
    obtain ⟨slot, hslot, hname⟩ := List.mem_map.mp hkey
    exact List.any_eq_true.mpr ⟨slot, hslot, decide_eq_true hname⟩
  rw [← hkeys] at hslots
  have hfilter : (members.filter fun m => slots.any (·.name = m.1)) = members :=
    List.filter_eq_self.mpr hknown
  simp only [record?, record, named?_members, Option.bind_eq_bind, Option.bind_some, hfilter,
    hslots, guard_true]
  rfl

theorem find_of_keys (hkeys : Entries.keys members = slots.map Slot.name)
    (hslots : (slots.map Slot.name).Nodup) :
    ∀ m ∈ members, Entries.find m.1 members = some m.2 := by
  rw [← hkeys] at hslots
  intro m hm
  exact Entries.find_of_mem hslots hm

theorem list?_array {read : Json → Option α} {write : α → Json} {f : α → α} {as : List α}
    (h : ∀ a ∈ as, read (write a) = some (f a)) :
    list? read (array (as.map write)) = some (as.map f) :=
  mapM_map_eq_some h

theorem decimal?_ofDecimal (d : Decimal) : decimal? (ofDecimal d) = some d.reread :=
  Decimal.ofText?_toText d

theorem required_decimal {d : Decimal} (h : Entries.find name members = some (ofDecimal d)) :
    required members name decimal? = some d.reread := by
  rw [required, h, Option.bind_some, decimal?_ofDecimal]

theorem nullable_decimal {d? : Option Decimal}
    (h : Entries.find name members = some (ofOption ofDecimal d?)) :
    nullable members name decimal? = some (d?.map Decimal.reread) := by
  rw [nullable, h]
  cases d? with
  | none => rfl
  | some d =>
    rw [ofOption, ofDecimal, text]
    exact congrArg (Option.map some) (decimal?_ofDecimal d)

end Invoicing.Json
