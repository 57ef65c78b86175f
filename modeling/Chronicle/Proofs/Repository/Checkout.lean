import Chronicle.Proofs.FileTree.Sound
import Chronicle.Repository.Checkout

/-!
# Checking out keeps trees sound

What is in the way goes before a file is written, and where something still is, nothing is written. So
going from the files of one commit to those of another leaves a sound tree, wherever it ends
(`Checkout.run_sound`).
-/

namespace Chronicle

theorem FileTree.Sound.clear {t : FileTree} (ht : t.Sound) (p : Path) : (t.clear p).Sound := by
  unfold FileTree.clear
  split
  · exact ht.remove _
  · exact ht.remove p

theorem FileTree.Sound.settle {t t' : FileTree} (ht : t.Sound) {p : Path} {content : String}
    (h : t.settle p content = some t') : t'.Sound := by
  unfold FileTree.settle at h
  split at h
  · cases h
  · rename_i hfree
    cases h
    rw [Bool.not_eq_true, Bool.or_eq_false_iff] at hfree
    apply ht.addFile hfree.1
    intro d hd
    exact Bool.eq_false_iff.mpr (List.any_eq_false.mp hfree.2 d hd)

namespace Checkout

variable {c : Checkout}

theorem foldl_drop_sound {α : Type} (path : α → Path) (keep : α → Bool) (ds : List α)
    (hc : c.tree.Sound) : (ds.foldl (fun c d => c.drop (path d) (keep d)) c).tree.Sound := by
  induction ds generalizing c with
  | nil => exact hc
  | cons d rest ih => exact ih (hc.clear (path d))

theorem writeAll_sound (new : Tree) (ps : List Path) (hc : c.tree.Sound) :
    (writeAll new ps c).2.tree.Sound := by
  induction ps generalizing c with
  | nil => exact hc
  | cons p rest ih =>
    unfold writeAll
    split
    · exact hc
    · rename_i next hnext
      apply ih
      unfold write at hnext
      obtain ⟨t, ht, rfl⟩ := Option.map_eq_some_iff.mp hnext
      exact hc.settle ht

theorem run_sound (hc : c.tree.Sound) (old new : Tree) : (c.run old new).2.tree.Sound := by
  unfold run
  apply writeAll_sound
  apply foldl_drop_sound id fun _ => false
  exact foldl_drop_sound (fun d : Path × Deed => d.1) (fun d => d.2.write) _ hc

end Checkout

end Chronicle
