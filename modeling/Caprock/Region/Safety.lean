import Caprock.Lib.Run
import Caprock.Region.Occupancy

/-! # Programs on the heap

A run allocates, gives blocks back and writes into them.  Its live blocks never share a byte,
and the region of a live block stays with the heap.
-/

namespace Caprock.Region

open Mem Memory Execution

namespace Lauf

def init : Lauf := ⟨Heap.new, fun _ => 0, []⟩

inductive Op where
  | allocate (layout : Layout) (antwort : Option PhysRegion)
  | deallocate (b : Block)
  | schreiben (x : Nat) (v : UInt8)

def grant (s : Lauf) (layout : Layout) : Option (Nat × Nat) × Heap → Lauf
  | (none, heap) => { s with heap := heap }
  | (some (a, len), heap) => { s with heap := heap, lebt := ⟨a, len, layout⟩ :: s.lebt }

def step (s : Lauf) : Op → Option Lauf
  | .allocate layout antwort => some (s.grant layout (s.heap.allocate s.mem layout antwort))
  | .deallocate b =>
      let res := s.heap.deallocate s.mem b.addr b.layout
      some ⟨res.1, res.2, s.lebt.erase b⟩
  | .schreiben x v => some { s with mem := Function.update s.mem x v }

/-- The source keeps its contract, only live blocks are given back, with their layout, and a
program writes into its live blocks. -/
def OpOk (s : Lauf) : Op → Prop
  | .allocate layout antwort => s.heap.source.Liefert layout.minLen antwort
  | .deallocate b => b ∈ s.lebt
  | .schreiben x _ => ∃ b ∈ s.lebt, x ∈ b.bytes

theorem init_inv : init.Inv := ⟨_, Belegung.new _⟩

theorem step_inv (s : Lauf) (op : Op) (h : s.Inv) (hok : s.OpOk op) :
    ∃ s', s.step op = some s' ∧ s'.Inv := by
  cases op with
  | allocate layout antwort =>
    refine ⟨_, rfl, ?_⟩
    obtain ⟨hheap, hblock⟩ := h.allocate hok
    cases hres : s.heap.allocate s.mem layout antwort with
    | mk res heap =>
      rw [hres] at hheap hblock
      cases res with
      | none => exact hheap
      | some p => exact hblock p.1 p.2 rfl
  | deallocate b => exact ⟨_, rfl, h.deallocate hok⟩
  | schreiben x v =>
    obtain ⟨b, hb, hx⟩ := hok
    exact ⟨_, rfl, h.schreiben hb hx v⟩

/-- Live blocks share no byte, each lies in a region that the heap holds and the source counts
as out, and a region that goes back with a block contains no byte of the others. -/
structure Sicher (s : Lauf) : Prop where
  disjunkt : s.lebt.Pairwise fun b c => Disjoint b.bytes c.bytes
  gehalten : ∀ b ∈ s.lebt, b.len = 0 ∨ ∃ r ∈ s.heap.regionen,
    r ∈ s.heap.source.vergeben ∧ b.bytes ⊆ r.addrs
  freigabe : ∀ b ∈ s.lebt, ∀ r ∈ s.heap.source.vergeben,
    r ∉ (s.heap.deallocate s.mem b.addr b.layout).1.source.vergeben →
    ∀ c ∈ s.lebt.erase b, Disjoint c.bytes r.addrs

end Lauf

theorem Apart.disjoint {r s : PhysRegion} (h : Apart r s) : Disjoint r.addrs s.addrs := by
  rw [Set.disjoint_left]
  intro x hr hs
  rw [PhysRegion.mem_addrs] at hr hs
  unfold Apart at h
  omega

theorem Block.bytes_subset {b : Block} (hlen : b.len ≤ b.umfang.len) :
    b.bytes ⊆ b.umfang.addrs := by
  rintro x ⟨hlo, hhi⟩
  exact ⟨hlo, lt_of_lt_of_le hhi (Nat.add_le_add_left hlen _)⟩

theorem addrs_subset {r w : PhysRegion} (h : r.Inside w) : r.addrs ⊆ w.addrs := by
  rintro x ⟨hlo, hhi⟩
  exact ⟨h.1.trans hlo, lt_of_lt_of_le hhi h.2⟩

theorem Belegung.sicher {s : Lauf} {frei : Nat → List Nat} (h : Belegung s frei) : s.Sicher := by
  have hsub : ∀ b ∈ s.lebt, b.bytes ⊆ b.umfang.addrs := fun b hb =>
    Block.bytes_subset (Block.len_le_umfang (h.bloecke b hb).2.2)
  constructor
  · have hpair := List.pairwise_map.mp (List.pairwise_append.mp h.getrennt).1
    apply hpair.imp_of_mem
    intro b c hb hc hapart
    exact hapart.disjoint.mono (hsub b hb) (hsub c hc)
  · intro b hb
    obtain hzero | hort := h.ort (List.mem_append_left _ (List.mem_map_of_mem hb))
    · left
      have hlen := Block.len_le_umfang (h.bloecke b hb).2.2
      omega
    · obtain ⟨r, hr, hin⟩ := hort.inside h.geordnet
      exact .inr ⟨r, hr, (h.geordnet.vergeben r hr).1, (hsub b hb).trans (addrs_subset hin)⟩
  · intro b hb r hr hgone c hc
    unfold Heap.deallocate at hgone
    by_cases hsize : b.layout.size = 0
    · rw [if_pos hsize] at hgone
      exact absurd hr hgone
    rw [if_neg hsize] at hgone
    cases hci : classFor b.layout.effective with
    | some ci =>
      rw [hci] at hgone
      exact absurd hr hgone
    | none =>
      obtain ⟨i, rg, hfind, hget, hapart, hnew⟩ := h.largeFrei hb hsize hci
      rw [hci] at hgone
      simp only [hfind, hget] at hgone
      obtain rfl : r = rg := by
        by_contra hne
        exact hgone ((List.mem_erase_of_ne hne).mpr hr)
      have hcsub := hsub c (List.mem_of_mem_erase hc)
      obtain hzero | hort := hnew.ort (List.mem_append_left _ (List.mem_map_of_mem hc))
      · have hempty : Apart c.umfang r := .inl hzero
        exact hempty.disjoint.mono_left hcsub
      · obtain ⟨t, ht, hin⟩ := hort.inside hnew.geordnet
        exact (hapart t ht).symm.disjoint.mono_left (hcsub.trans (addrs_subset hin))

namespace Lauf

/-- **Heap safety**, in every state that a run reaches. -/
theorem run_heap_sicher (ops : List Op) (hops : Admissible step OpOk init ops) :
    ∃ s, run step init ops = some s ∧ s.Sicher := by
  obtain ⟨s, hs, frei, hbel⟩ := run_total step_inv init_inv hops
  exact ⟨s, hs, hbel.sicher⟩

/-- 24 bytes, a page of its own, the first write, and the page back. -/
theorem run_heap_sicher_slot_and_page :
    ∃ s, run step init [
      .allocate ⟨24, 8, ⟨3, rfl⟩, by decide⟩ (some ⟨0x10000, 0x10000⟩),
      .allocate ⟨4096, 4096, ⟨12, rfl⟩, by decide⟩ (some ⟨0x40000, 0x1000⟩),
      .schreiben 0x10008 1,
      .deallocate ⟨0x40000, 4096, ⟨4096, 4096, ⟨12, rfl⟩, by decide⟩⟩] = some s ∧ s.Sicher := by
  apply run_heap_sicher
  have hslab : RegionOk ⟨0x10000, 0x10000⟩ := ⟨by decide, by decide, by decide⟩
  have hpage : RegionOk ⟨0x40000, 0x1000⟩ := ⟨by decide, by decide, by decide⟩
  refine ⟨?_, fun s₁ h₁ => ⟨?_, fun s₂ h₂ => ⟨?_, fun s₃ h₃ => ⟨?_, fun _ _ => trivial⟩⟩⟩⟩
  · rintro r hr
    cases hr
    exact ⟨hslab, by decide, by simp [init, Heap.new]⟩
  · cases h₁
    rintro r hr
    cases hr
    refine ⟨hpage, by decide, ?_⟩
    intro t ht
    obtain rfl : t = ⟨0x10000, 0x10000⟩ := List.mem_singleton.mp ht
    exact .inr (.inr (.inr (by decide)))
  · cases h₁
    cases h₂
    exact ⟨_, List.mem_cons_of_mem _ List.mem_cons_self, by decide, by decide⟩
  · cases h₁
    cases h₂
    cases h₃
    exact List.mem_cons_self

end Lauf

end Caprock.Region
