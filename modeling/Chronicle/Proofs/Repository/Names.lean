import Chronicle.Proofs.Repository.RefName
import Chronicle.Proofs.Workspace.Refreshing

/-!
# Names that are revisions

The name of a tag holds no mark of a step, so as a revision it is read as a name to its end
(`Repository.revision_of_plain`). What a name stands for depends on the head only where it is the head's own
(`Repository.nameObject_turn`). So **a tag that was checked out is found again where the head then is**
(`Repository.resolve_tag_again`), though a name may lead elsewhere than to the tag that it is the name of.
-/

namespace Chronicle

open Outcome

/-! ## Plain names -/

theorem mem_pieces {cs : List Char} {c : Char} (h : c ∈ cs) : c = '/' ∨ ∃ piece ∈ pieces cs, c ∈ piece := by
  induction cs with
  | nil => cases h
  | cons d rest ih =>
    by_cases hd : d = '/'
    · rcases List.mem_cons.mp h with rfl | h
      · exact .inl hd
      · rw [hd, pieces_slash]
        exact (ih h).imp_right fun ⟨piece, hpiece, hc⟩ => ⟨piece, List.mem_cons_of_mem _ hpiece, hc⟩
    · rw [pieces_cons hd]
      rcases hrest : pieces rest with _ | ⟨first, others⟩
      · rw [hrest] at ih
        rcases List.mem_cons.mp h with rfl | h
        · exact .inr ⟨[c], List.mem_cons_self, List.mem_cons_self⟩
        · exact (ih h).imp_right fun ⟨piece, hpiece, _⟩ => absurd hpiece List.not_mem_nil
      · rw [hrest] at ih
        rw [if_neg (List.cons_ne_nil _ _), List.modifyHead_cons]
        rcases List.mem_cons.mp h with rfl | h
        · exact .inr ⟨c :: first, List.mem_cons_self, List.mem_cons_self⟩
        · refine (ih h).imp_right ?_
          rintro ⟨piece, hpiece, hc⟩
          rcases List.mem_cons.mp hpiece with rfl | hpiece
          · exact ⟨d :: piece, List.mem_cons_self, List.mem_cons_of_mem d hc⟩
          · exact ⟨piece, List.mem_cons_of_mem _ hpiece, hc⟩

namespace RefName

theorem hasPair_cons {a b : Char} {cs : List Char} (c : Char) (h : hasPair a b cs = true) :
    hasPair a b (c :: cs) = true := by
  cases cs with
  | nil => cases h
  | cons d rest => rw [hasPair, h, Bool.or_true]

/-- Characters that stand next to each other stand so in one piece, if neither is a slash. -/
theorem exists_piece_hasPair {a b : Char} (ha : a ≠ '/') (hb : b ≠ '/') {cs : List Char}
    (h : hasPair a b cs = true) : ∃ piece ∈ pieces cs, hasPair a b piece = true := by
  induction cs with
  | nil => cases h
  | cons c rest ih =>
    cases rest with
    | nil => cases h
    | cons d rest =>
      rw [hasPair, Bool.or_eq_true, Bool.and_eq_true, beq_iff_eq, beq_iff_eq] at h
      by_cases hc : c = '/'
      · have hlater := h.resolve_left fun heq => ha (heq.1 ▸ hc)
        obtain ⟨piece, hpiece, hpair⟩ := ih hlater
        rw [hc, pieces_slash]
        exact ⟨piece, List.mem_cons_of_mem _ hpiece, hpair⟩
      · rw [pieces_cons hc]
        rcases hrest : pieces (d :: rest) with _ | ⟨first, others⟩
        · rw [pieces_eq_splitOn] at hrest
          exact absurd hrest (List.splitOn_ne_nil '/' _)
        · rw [if_neg (List.cons_ne_nil _ _), List.modifyHead_cons]
          rcases h with ⟨rfl, rfl⟩ | hlater
          · -- the second one is the first of the next piece
            rw [pieces_cons hb] at hrest
            split at hrest
            · obtain ⟨rfl, -⟩ := List.cons.inj hrest
              exact ⟨_, List.mem_cons_self, by simp [hasPair]⟩
            · rename_i hne
              obtain ⟨next, more, hmore⟩ := List.exists_cons_of_ne_nil hne
              rw [hmore, List.modifyHead_cons] at hrest
              obtain ⟨rfl, -⟩ := List.cons.inj hrest
              exact ⟨_, List.mem_cons_self, by simp [hasPair]⟩
          · obtain ⟨piece, hpiece, hpair⟩ := ih hlater
            rw [hrest] at hpiece
            rcases List.mem_cons.mp hpiece with rfl | hpiece
            · exact ⟨c :: piece, List.mem_cons_self, hasPair_cons c hpair⟩
            · exact ⟨piece, List.mem_cons_of_mem _ hpiece, hpair⟩

/-- No step of a revision begins in a text. -/
structure Plain (cs : List Char) : Prop where
  marks : ∀ c ∈ cs, c ≠ '^' ∧ c ≠ '~' ∧ c ≠ ':'
  places : hasPair '@' '\x7b' cs = false

theorem Plain.tail {c : Char} {cs : List Char} (h : Plain (c :: cs)) : Plain cs :=
  ⟨fun d hd => h.marks d (List.mem_cons_of_mem c hd),
    Bool.eq_false_iff.mpr fun hpair => Bool.eq_false_iff.mp h.places (hasPair_cons c hpair)⟩

/-- The segments of a name hold no such step. -/
theorem plain_of_segmentOk {text : String} (h : (segments text).all segmentOk = true) :
    Plain text.toList ∧ FileTree.hasNul text = false := by
  rw [List.all_eq_true] at h
  have hpiece (piece : List Char) (hp : piece ∈ pieces text.toList) :
      (∀ c ∈ piece, isAllowed c = true) ∧ hasPair '@' '\x7b' piece = false := by
    have hok := h (String.ofList piece) (List.mem_map_of_mem hp)
    simp only [segmentOk, String.toList_ofList, Bool.and_eq_true, Bool.not_eq_true', List.all_eq_true] at hok
    exact ⟨hok.1.1.1.1, hok.1.2⟩
  have hchar (c : Char) (hc : c ∈ text.toList) : c = '/' ∨ isAllowed c = true :=
    (mem_pieces hc).imp_right fun ⟨piece, hp, hc⟩ => (hpiece piece hp).1 c hc
  refine ⟨⟨?_, ?_⟩, ?_⟩
  · intro c hc
    rcases hchar c hc with rfl | hallowed
    · decide
    · refine ⟨?_, ?_, ?_⟩ <;>
        · rintro rfl
          revert hallowed
          decide
  · apply Bool.eq_false_iff.mpr
    intro hpair
    obtain ⟨piece, hp, hpair⟩ := exists_piece_hasPair (by decide) (by decide) hpair
    rw [(hpiece piece hp).2] at hpair
    cases hpair
  · apply Bool.eq_false_iff.mpr
    intro hnul
    rcases hchar _ (List.contains_iff_mem.mp hnul) with heq | hallowed
    · revert heq
      decide
    · revert hallowed
      decide

/-- What follows the name of the group in the name of a tag is plain, and there is some. -/
theorem plain_of_tag {text name : String} (h : normal? (tags ++ text) = some name) :
    Plain text.toList ∧ text ≠ "" := by
  obtain ⟨-, hslash, -, hok, -, -⟩ := normal?_eq_some.mp h
  have hsegments : segments (tags ++ text) = "refs" :: "tags" :: segments text := by
    rw [segments, String.toList_append]
    rfl
  rw [hsegments, List.all_cons, List.all_cons, Bool.and_eq_true, Bool.and_eq_true] at hok
  refine ⟨(plain_of_segmentOk hok.2.2).1, ?_⟩
  rintro rfl
  revert hslash
  decide +kernel

theorem hasNul_of_branch {text name : String} (h : normal? (branches ++ text) = some name) :
    FileTree.hasNul text = false := by
  obtain ⟨-, -, -, hok, -, -⟩ := normal?_eq_some.mp h
  have hsegments : segments (branches ++ text) = "refs" :: "heads" :: segments text := by
    rw [segments, String.toList_append]
    rfl
  rw [hsegments, List.all_cons, List.all_cons, Bool.and_eq_true, Bool.and_eq_true] at hok
  exact (plain_of_segmentOk hok.2.2).2

end RefName

namespace Repository

variable {r : Repository} {text : String} {id : CommitId}

/-! ## Reading names -/

/-- A plain text is read as a name. By induction on what is left of it. -/
theorem readOn_of_plain {cs : List Char} (h : RefName.Plain cs) {s : Reading} (hobject : s.object = none)
    (href : s.ref = none) : r.readOn cs.length cs s = .ok { s with name := cs.reverse ++ s.name } := by
  induction cs generalizing s with
  | nil =>
    unfold readOn
    rfl
  | cons c rest ih =>
    have hname : (if s.object.isSome || s.ref.isSome then (.error .invalidName : Except Fault Reading)
        else r.readOn rest.length rest { s with name := c :: s.name }) =
          .ok { s with name := (c :: rest).reverse ++ s.name } := by
      rw [hobject, href]
      simp only [Option.isSome_none, Bool.or_false, Bool.false_eq_true, if_false]
      rw [ih h.tail rfl rfl, List.reverse_cons, List.append_assoc, List.singleton_append]
    obtain ⟨hcaret, htilde, hcolon⟩ := h.marks c List.mem_cons_self
    rw [List.length_cons]
    unfold readOn
    dsimp only
    split
    · exact absurd rfl hcaret
    · exact absurd rfl htilde
    · exact absurd rfl hcolon
    · split
      · have hpair := h.places
        simp [RefName.hasPair] at hpair
      · exact hname
    · exact hname

theorem revision_of_plain (h : RefName.Plain text.toList) (hne : text ≠ "") :
    r.revision text = r.nameObject text := by
  have hread := readOn_of_plain (r := r) h (s := {}) rfl rfl
  have hnot : text.toList.reverse ++ [] ≠ [] := by simpa using hne
  have hempty : (text.toList.reverse ++ []).isEmpty = false := by
    rw [List.isEmpty_eq_false_iff]
    exact hnot
  have htext : Reading.text { name := text.toList.reverse ++ [] } = text := by simp [Reading.text]
  rw [revision, ← String.length_toList, hread, ok_bind]
  simp only [reached, hempty, htext, Bool.false_eq_true, if_false]

/-! ## Names and the head -/

/-- The head by one of its names. -/
theorem nameObject_head (hid : r.headCommit = .ok (some id)) (hname : text = headName ∨ text = "@") :
    ∃ ref : Ref, r.nameObject text = .ok ref.object ∧ ref.commit = id := by
  obtain ⟨full, ref, hfollow, hcommit⟩ := follow_head hid
  have hvalid : RefName.isValid headName = true := by decide +kernel
  have hnamed : r.named headName = .ok (full, ref) := by
    obtain ⟨others, hreadings⟩ : ∃ others, readings headName = headName :: others := ⟨_, rfl⟩
    rw [named, hreadings, firstOf, if_pos hvalid]
    unfold headName
    rw [hfollow]
  have hlength : (text.length == 40) = false := by
    rcases hname with rfl | rfl <;> rfl
  have hat : (if text == "@" then headName else text) = headName := by
    rcases hname with rfl | rfl <;> rfl
  refine ⟨ref, ?_, hcommit⟩
  simp only [nameObject, hlength, Bool.false_eq_true, if_false, hat, hnamed]

/-- Every other name stands for the same wherever the head is. -/
theorem nameObject_turn (index saved : Tree) (head : Head) (hempty : text ≠ "") (hne : text ≠ headName)
    (hat : text ≠ "@") :
    ({ r with index, saved }.turn head id).nameObject text = r.nameObject text := by
  have hfollow (name : String) (hname : name ≠ headName) :
      ({ r with index, saved }.turn head id).follow name = r.follow name := by
    unfold follow
    rw [beq_eq_false_iff_ne.mpr hname]
    rfl
  have hfirst (missing : Fault) {names : List String} (hnames : ∀ name ∈ names, name ≠ headName) :
      ({ r with index, saved }.turn head id).firstOf missing names = r.firstOf missing names := by
    induction names generalizing missing with
    | nil => rfl
    | cons name others ih =>
      obtain ⟨hname, hothers⟩ := List.forall_mem_cons.mp hnames
      unfold firstOf
      rw [hfollow name hname, ih _ hothers, ih _ hothers]
  have hgroup (group : String) (hgroup : group.toList.head? = some 'r') (rest : String) :
      group ++ rest ≠ headName := by
    intro heq
    have hhead := congrArg (fun s : String => s.toList.head?) heq
    rw [String.toList_append] at hhead
    simp [hgroup, headName] at hhead
  have hnamed : ({ r with index, saved }.turn head id).named text = r.named text := by
    have hsome : text.isEmpty = false := by simpa [String.isEmpty_iff] using hempty
    unfold named readings
    rw [hsome]
    apply hfirst
    simp only [Bool.false_eq_true, if_false, List.mem_cons, List.not_mem_nil, or_false]
    rintro name (rfl | rfl | rfl | rfl | rfl | rfl)
    · exact hne
    · exact hgroup "refs/" rfl _
    · exact hgroup RefName.tags rfl _
    · exact hgroup RefName.branches rfl _
    · exact hgroup "refs/remotes/" rfl _
    · rw [String.append_assoc, String.append_assoc]
      exact hgroup "refs/remotes/" rfl _
  have hsame : (if text == "@" then headName else text) = text := if_neg (by simpa using hat)
  unfold nameObject
  rw [hsame, hnamed]
  rfl

/-- A branch is found under the rest of its name, wherever it is. -/
theorem resolve_branch {name short : String} {ref : Ref} (hname : RefName.normal? name = some name)
    (hshort : RefName.without? RefName.branches name = some short) (href : r.ref? name = some ref) :
    r.branch? short = some (name, ref) ∧ r.resolve short = .ok ref.commit := by
  have hbranch : r.branch? short = some (name, ref) := by
    simp [branch?, RefName.within?_branches hname hshort, href]
  have hnul : FileTree.hasNul short = false := by
    rw [RefName.eq_append_of_without? hshort] at hname
    exact RefName.hasNul_of_branch hname
  refine ⟨hbranch, ?_⟩
  unfold resolve
  rw [hnul, hbranch]
  rfl

/-- **A tag is found again.** Where the head is detached at what the name of a tag leads to, the name leads
there still. -/
theorem resolve_tag_again {name : String} (hname : RefName.normal? (RefName.tags ++ text) = some name)
    (hbranch : r.branch? text = none) (hid : r.resolve text = .ok id) (index saved : Tree) :
    ({ r with index, saved }.turn (.detached id) id).branch? text = none ∧
      ({ r with index, saved }.turn (.detached id) id).resolve text = .ok id := by
  obtain ⟨hplain, hne⟩ := RefName.plain_of_tag hname
  refine ⟨hbranch, ?_⟩
  have hbranch' : ({ r with index, saved }.turn (.detached id) id).branch? text = none := hbranch
  have hhead : ({ r with index, saved }.turn (.detached id) id).headCommit = .ok (some id) :=
    headCommit_detached rfl
  unfold resolve at hid ⊢
  split at hid
  · cases hid
  · rename_i hnul
    rw [if_neg hnul, hbranch']
    rw [hbranch] at hid
    dsimp only at hid ⊢
    rw [revision_of_plain hplain hne] at hid ⊢
    by_cases hown : text = headName ∨ text = "@"
    · obtain ⟨ref, hobject, hcommit⟩ := nameObject_head hhead hown
      rw [hobject]
      simp only [peelCommit_object, hcommit]
      rfl
    · rw [not_or] at hown
      rw [nameObject_turn index saved (.detached id) hne hown.1 hown.2]
      exact hid

end Repository

end Chronicle
