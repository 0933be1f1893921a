import Smoothfs.Library.Content

/-! The contents that a file had since it was last made durable. After a crash each
byte is that of some version, and the size lies between those of two versions. -/
namespace Smoothfs.Versions

open Content

variable {α : Type} [Zero α]

def Offers (versions : List (List α)) (index : Nat) (byte : α) : Prop :=
  ∃ version ∈ versions, fetch version index = byte

structure Mixed (versions : List (List α)) (content : List α) : Prop where
  least : ∃ version ∈ versions, version.length ≤ content.length
  most : ∃ version ∈ versions, content.length ≤ version.length
  bytes : ∀ index, index < content.length → Offers versions index (fetch content index)

variable {versions : List (List α)}

variable {index : Nat}

theorem Offers.cons {byte : α} (offers : Offers versions index byte) (version : List α) :
    Offers (version::versions) index byte :=
  offers.imp (fun _ found => ⟨List.mem_cons_of_mem _ found.1,found.2⟩)

theorem offers_write (versions : List (List α)) (newest : List α) {pos : Nat} {data : List α} (behind : pos ≤ index)
    (before : index < pos + data.length) : Offers (write newest pos data::versions) index (fetch data (index - pos)) :=
  ⟨_,List.mem_cons_self,by rw [fetch_write,if_pos ⟨behind,before⟩]⟩

theorem Offers.written {content newest : List α}
    (offers : Offers versions index (fetch content index)) (pos : Nat) (data : List α) :
    Offers (write newest pos data::versions) index (fetch (write content pos data) index) := by
  rw [fetch_write]
  split
  · next inside => exact offers_write versions newest inside.1 inside.2
  · exact offers.cons _

end Smoothfs.Versions
