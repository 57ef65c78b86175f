import Chronicle.Document.Json.Printer
import Chronicle.Document.Json.Reader
import Chronicle.Proofs.Outcome

/-!
# JSON is read as it was written

A reader takes some characters and answers (`Json.Takes`) when it does so whatever follows them; what two
readers take, they take one after the other (`Json.Takes.bind`). A document of texts, truth values, lists
and records (`Document.Textual`) is taken from its printed form, blanks included, and so **what
`Document.pretty` prints is read back as the document** (`Json.read_pretty`).
-/

namespace Chronicle

namespace Json

variable {α β : Type}

/-- Reading a text that begins with `cs`, whatever follows, goes just over `cs` and answers `a`. -/
def Takes (m : Reader α) (cs : List Char) (a : α) : Prop :=
  ∀ rest offset, ∃ offset', m ⟨cs ++ rest, offset⟩ = .ok (a, ⟨rest, offset'⟩)

/-- Characters that do not count between the parts of a text. -/
def Blank (cs : List Char) : Prop := ∀ c ∈ cs, isSpace c = true

theorem Blank.nil : Blank [] := fun _ hc => absurd hc List.not_mem_nil

/-! ## Readers one after the other -/

theorem Takes.pure (a : α) : Takes (Pure.pure a) [] a := fun _ offset => ⟨offset, rfl⟩

theorem Takes.bind {m : Reader α} {f : α → Reader β} {cs ds : List Char} {a : α} {b : β}
    (hm : Takes m cs a) (hf : Takes (f a) ds b) : Takes (m >>= f) (cs ++ ds) b := by
  intro rest offset
  obtain ⟨middle, hm⟩ := hm (ds ++ rest) offset
  obtain ⟨offset', hf⟩ := hf rest middle
  refine ⟨offset', ?_⟩
  rw [List.append_assoc]
  show (m ⟨cs ++ (ds ++ rest), offset⟩ >>= fun p => f p.1 p.2) = _
  rw [hm]
  exact hf

/-- What is answered may still be worked on. -/
theorem Takes.map {m : Reader α} {cs : List Char} {a : α} (hm : Takes m cs a) (f : α → β) :
    Takes (m >>= fun x => Pure.pure (f x)) cs (f a) := by
  have hbind := hm.bind (f := fun x => Pure.pure (f x)) (.pure (f a))
  rwa [List.append_nil] at hbind

theorem takes_advance (c : Char) : Takes advance [c] () := fun _ _ => ⟨_, rfl⟩

theorem Takes.advance {c : Char} {m : Reader α} {cs : List Char} {a : α} (hm : Takes m cs a) :
    Takes (Json.advance >>= fun _ => m) (c :: cs) a :=
  (takes_advance c).bind hm

/-- The next character is looked at and stays. -/
theorem Takes.peek {c : Char} {f : Option Char → Reader α} {cs : List Char} {a : α}
    (hf : Takes (f (some c)) (c :: cs) a) : Takes (Json.peek >>= f) (c :: cs) a := hf

/-- Blanks are skipped before the next character is looked at. -/
theorem Takes.peekToken {blanks : List Char} {c : Char} {f : Option Char → Reader α} {cs : List Char} {a : α}
    (hblanks : Blank blanks) (hc : isSpace c = false) (hf : Takes (f (some c)) (c :: cs) a) :
    Takes (Json.peekToken >>= f) (blanks ++ c :: cs) a := by
  intro rest offset
  have hskip : (blanks ++ c :: cs ++ rest).dropWhile isSpace = c :: cs ++ rest := by
    rw [List.append_assoc, List.dropWhile_append_of_pos hblanks, List.cons_append,
      List.dropWhile_cons_of_neg (by simp [hc])]
  obtain ⟨offset', hf⟩ := hf rest
    (offset + ((blanks ++ c :: cs ++ rest).length - (c :: cs ++ rest).length))
  refine ⟨offset', ?_⟩
  rw [← hf]
  show (f _ ⟨(blanks ++ c :: cs ++ rest).dropWhile isSpace, _⟩) = _
  rw [hskip]
  rfl

/-! ## Strings -/

theorem hexValue?_hexDigit : ∀ n < 16, hexValue? (Document.hexDigit n) = some n := by decide

theorem utf8Size_hexDigit : ∀ n < 16, (Document.hexDigit n).utf8Size = 1 := by decide

/-- The number of a control character, in four digits. -/
theorem takes_fourHex {n : Nat} (hn : n < 0x20) :
    Takes fourHex ['0', '0', Document.hexDigit (n / 16), Document.hexDigit (n % 16)] n := by
  intro rest offset
  have hhigh := hexValue?_hexDigit (n / 16) (by omega)
  have hlow := hexValue?_hexDigit (n % 16) (by omega)
  have hzero : hexValue? '0' = some 0 := rfl
  have hvalue : n / 16 * 16 + n % 16 = n := by omega
  refine ⟨offset + 4, ?_⟩
  simp [fourHex, byteCount, utf8Size_hexDigit (n / 16) (by omega), utf8Size_hexDigit (n % 16) (by omega),
    hzero, hhigh, hlow, hvalue, show ('0' : Char).utf8Size = 1 from rfl]

theorem takes_numberedEscape {c : Char} (hc : c.toNat < 0x20) : Takes numberedEscape
    ['0', '0', Document.hexDigit (c.toNat / 16), Document.hexDigit (c.toNat % 16)] c := by
  have hplain : Takes (if 0xDC00 ≤ c.toNat && c.toNat ≤ 0xDFFF then failHere .loneSurrogate
      else if c.toNat < 0xD800 || 0xDBFF < c.toNat then return Char.ofNat c.toNat
      else do
        surrogateMark '\\'
        surrogateMark 'u'
        let low ← fourHex
        if low < 0xDC00 || 0xDFFF < low then failHere .loneSurrogate
        else return Char.ofNat ((c.toNat - 0xD800) * 0x400 + (low - 0xDC00) + 0x10000)) [] c := by
    rw [if_neg (by simp; omega), if_pos (by simp; omega), Char.ofNat_toNat]
    exact .pure c
  exact (takes_fourHex hc).bind hplain

theorem Takes.escaped {fuel : Nat} {c : Char} {done e ds : List Char} {s : String} (hc : Takes escape e c)
    (hrest : Takes (stringBody fuel (c :: done)) ds s) :
    Takes (stringBody (fuel + 1) done) ('\\' :: e ++ ds) s := by
  intro rest offset
  have hboth : Takes (escape >>= fun c => stringBody fuel (c :: done)) (e ++ ds) s := hc.bind hrest
  exact hboth rest (offset + 1)

theorem bind_peek (f : Option Char → Reader α) (c : Char) (rest : List Char) (offset : Nat) :
    (Json.peek >>= f) ⟨c :: rest, offset⟩ = f (some c) ⟨c :: rest, offset⟩ := rfl

/-- A character that is neither a quote nor a backslash nor a control character stands for itself. -/
theorem stringBody_plain {c : Char} (hquote : c ≠ '"') (hbackslash : c ≠ '\\') (hcontrol : ¬ c.toNat < 0x20)
    (fuel : Nat) (done rest : List Char) (offset : Nat) :
    stringBody (fuel + 1) done ⟨c :: rest, offset⟩ =
      stringBody fuel (c :: done) ⟨rest, offset + c.utf8Size⟩ := by
  rw [stringBody, bind_peek]
  -- the reader tells the next character from those it treats apart, which splits only as a variable
  generalize hnext : some c = next
  split
  · cases hnext
  · exact absurd (Option.some.inj hnext) hquote
  · exact absurd (Option.some.inj hnext) hbackslash
  · cases hnext
    rw [if_neg hcontrol]
    rfl

/-- The next character of a string, as it is written there. -/
theorem Takes.character {fuel : Nat} {c : Char} {done cs : List Char} {s : String}
    (hrest : Takes (stringBody fuel (c :: done)) cs s) :
    Takes (stringBody (fuel + 1) done) (Document.jsonChar c ++ cs) s := by
  unfold Document.jsonChar
  split
  case h_8 _ hquote hbackslash hnewline hreturn htab hbackspace hfeed =>
    split
    · -- a control character is written by its number
      rename_i hcontrol
      exact .escaped (e := 'u' :: _) (fun rest offset => takes_numberedEscape hcontrol rest (offset + 1)) hrest
    · -- and any other stands for itself
      rename_i hcontrol
      intro rest offset
      obtain ⟨offset', hrest⟩ := hrest rest (offset + c.utf8Size)
      exact ⟨offset', (stringBody_plain hquote hbackslash hcontrol fuel done _ offset).trans hrest⟩
  all_goals exact .escaped (e := [_]) (fun rest offset => ⟨offset + 1, rfl⟩) hrest

/-- A character takes at least one place in a string. -/
theorem length_le_flatMap_jsonChar (cs : List Char) : cs.length ≤ (cs.flatMap Document.jsonChar).length := by
  induction cs with
  | nil => exact Nat.le_refl _
  | cons c rest ih =>
    have hone : 1 ≤ (Document.jsonChar c).length := by
      unfold Document.jsonChar
      split
      case h_8 => split <;> simp
      all_goals simp
    rw [List.flatMap_cons, List.length_append, List.length_cons]
    omega

theorem takes_stringBody {cs : List Char} {fuel : Nat} (hfuel : cs.length < fuel) (done : List Char) :
    Takes (stringBody fuel done) (cs.flatMap Document.jsonChar ++ ['"']) (String.ofList (done.reverse ++ cs)) := by
  obtain ⟨fuel, rfl⟩ := Nat.exists_eq_succ_of_ne_zero (Nat.ne_zero_of_lt hfuel)
  induction cs generalizing fuel done with
  | nil =>
    rw [List.append_nil]
    exact fun _ offset => ⟨offset + 1, rfl⟩
  | cons c rest ih =>
    rw [List.length_cons, Nat.succ_lt_succ_iff] at hfuel
    obtain ⟨fuel, rfl⟩ := Nat.exists_eq_succ_of_ne_zero (Nat.ne_zero_of_lt hfuel)
    have hrest := ih (c :: done) fuel hfuel
    rw [List.reverse_cons, List.append_assoc, List.singleton_append] at hrest
    rw [List.flatMap_cons, List.append_assoc]
    exact hrest.character

/-- A text is written between quotes. -/
theorem compactChars_text (s : String) :
    Document.compactChars (.text s) = '"' :: (s.toList.flatMap Document.jsonChar ++ ['"']) := rfl

/-- A string is read up to its closing quote. -/
theorem takes_string (s : String) : Takes string (s.toList.flatMap Document.jsonChar ++ ['"']) s := by
  intro rest offset
  have hfuel : s.toList.length < (s.toList.flatMap Document.jsonChar ++ ['"'] ++ rest).length + 1 := by
    have hle := length_le_flatMap_jsonChar s.toList
    simp only [List.length_append]
    omega
  have hbody := takes_stringBody hfuel []
  rw [List.reverse_nil, List.nil_append, String.ofList_toList] at hbody
  exact hbody rest offset

/-! ## Lists and records -/

/-- The characters that a printed document may begin with. -/
def openers : List Char := ['n', 't', 'f', '"', '[', '\x7b']

section

variable {f : Bool → Reader α} {blanks cs : List Char} {c : Char} {a : α}

theorem takes_moreItems_done (first : Bool) (hblanks : Blank blanks) :
    Takes (moreItems first) (blanks ++ [']']) false := by
  unfold moreItems
  exact .peekToken hblanks rfl (Takes.advance (Takes.pure false))

theorem Takes.moreItems_first (hblanks : Blank blanks) (hc : c ∈ openers) (hf : Takes (f true) (c :: cs) a) :
    Takes (moreItems true >>= f) (blanks ++ c :: cs) a := by
  rw [moreItems, bind_assoc]
  simp only [openers, List.mem_cons, List.not_mem_nil, or_false] at hc
  rcases hc with rfl | rfl | rfl | rfl | rfl | rfl <;> exact .peekToken hblanks rfl hf

theorem Takes.moreItems_next (hblanks : Blank blanks) (hc : c ∈ openers) (hf : Takes (f true) (c :: cs) a) :
    Takes (moreItems false >>= f) (',' :: (blanks ++ c :: cs)) a := by
  rw [moreItems, bind_assoc]
  refine .peekToken Blank.nil rfl ?_
  show Takes ((Json.advance >>= fun _ => Json.peekToken >>= _) >>= f) _ _
  rw [bind_assoc]
  refine .advance ?_
  rw [bind_assoc]
  simp only [openers, List.mem_cons, List.not_mem_nil, or_false] at hc
  rcases hc with rfl | rfl | rfl | rfl | rfl | rfl <;> exact .peekToken hblanks rfl hf

theorem takes_moreEntries_done (first : Bool) (hblanks : Blank blanks) :
    Takes (moreEntries first) (blanks ++ ['\x7d']) false := by
  unfold moreEntries
  exact .peekToken hblanks rfl (Takes.advance (Takes.pure false))

theorem takes_moreEntries_first (hblanks : Blank blanks) (hf : Takes (f true) ('"' :: cs) a) :
    Takes (moreEntries true >>= f) (blanks ++ '"' :: cs) a := by
  rw [moreEntries, bind_assoc]
  exact .peekToken hblanks rfl hf

theorem takes_moreEntries_next (hblanks : Blank blanks) (hf : Takes (f true) ('"' :: cs) a) :
    Takes (moreEntries false >>= f) (',' :: (blanks ++ '"' :: cs)) a := by
  rw [moreEntries, bind_assoc]
  refine .peekToken Blank.nil rfl ?_
  show Takes ((Json.advance >>= fun _ => Json.peekToken >>= _) >>= f) _ _
  rw [bind_assoc]
  refine .advance ?_
  rw [bind_assoc]
  exact .peekToken hblanks rfl hf

theorem takes_colon : Takes colon [':'] () := by
  unfold colon
  exact .peekToken Blank.nil rfl (takes_advance ':')

end

theorem blank_newLine (depth : Nat) : Blank (Document.newLine depth) := by
  intro c hc
  rcases List.mem_cons.mp hc with rfl | hc
  · rfl
  · rw [List.eq_of_mem_replicate hc]
    rfl

/-- A document is read from its printed form, however deep that is set in and whatever blanks stand
before it, with at most `depth` lists and records inside one another. -/
def ReadsBack (depth : Nat) (d : Document) : Prop :=
  ∀ level fuel blanks, Blank blanks → (d.prettyChars level).length ≤ fuel →
    Takes (value fuel depth) (blanks ++ d.prettyChars level) d

/-- A printed document begins with one of the `openers`. -/
def Opens (d : Document) : Prop := ∀ level, ∃ c ∈ openers, ∃ cs, d.prettyChars level = c :: cs

section

variable {depth : Nat} (level : Nat)

/-- One item and those after it. `hmore` says how the reader gets to the item. -/
theorem takes_item {item : Document} {rest : List Document} (hitem : ReadsBack depth item) {fuel : Nat}
    (hfuel : (item.prettyChars level).length ≤ fuel) {cs : List Char}
    (hrest : Takes (items fuel depth false) cs rest) :
    Takes (value fuel depth >>= fun item => items fuel depth false >>= fun more => return item :: more)
      (item.prettyChars level ++ cs) (item :: rest) :=
  (hitem level fuel [] Blank.nil hfuel).bind (hrest.map (item :: ·))

/-- The items after the first one, and the closing bracket. -/
theorem takes_items {rest : List Document} (hitems : ∀ d ∈ rest, ReadsBack depth d ∧ Opens d) {fuel : Nat}
    (hfuel : (Document.prettyItems level rest).length ≤ fuel) :
    Takes (items fuel depth false) (Document.prettyItems level rest) rest := by
  induction rest generalizing fuel with
  | nil =>
    simp only [Document.prettyItems, List.length_append, List.length_singleton] at hfuel ⊢
    obtain ⟨fuel, rfl⟩ : ∃ n, fuel = n + 1 := ⟨fuel - 1, by omega⟩
    rw [items]
    have hdone := (takes_moreItems_done false (blank_newLine level)).bind (f := fun more => if more = true then do
        let item ← value fuel depth
        return item :: (← items fuel depth false)
      else return []) (Takes.pure [])
    rwa [List.append_nil] at hdone
  | cons item rest ih =>
    obtain ⟨hitem, hopens⟩ := hitems item List.mem_cons_self
    simp only [Document.prettyItems, List.length_append, List.length_cons] at hfuel ⊢
    obtain ⟨fuel, rfl⟩ : ∃ n, fuel = n + 1 := ⟨fuel - 1, by omega⟩
    have hitemfuel : (item.prettyChars (level + 1)).length ≤ fuel := by omega
    have hrestfuel : (Document.prettyItems level rest).length ≤ fuel := by omega
    have hrest := ih (fun d hd => hitems d (List.mem_cons_of_mem item hd)) hrestfuel
    have hboth := takes_item (level + 1) hitem hitemfuel hrest
    obtain ⟨c, hc, cs, hcs⟩ := hopens (level + 1)
    rw [items]
    rw [hcs] at hboth ⊢
    simp only [List.cons_append, List.append_assoc]
    exact .moreItems_next (blank_newLine (level + 1)) hc hboth

/-- One entry and those after it, behind the quote that opens its key. -/
theorem takes_entry (key : String) {item : Document} {rest : List (Document × Document)}
    (hitem : ReadsBack depth item) {fuel : Nat} (hfuel : (item.prettyChars level).length ≤ fuel)
    {cs : List Char} (hrest : Takes (entries fuel depth false) cs rest) :
    Takes (string >>= fun key => colon >>= fun _ => value fuel depth >>= fun item =>
        entries fuel depth false >>= fun more => return (.text key, item) :: more)
      (key.toList.flatMap Document.jsonChar ++ ['"'] ++ ([':'] ++ ([' '] ++ item.prettyChars level ++ cs)))
      ((.text key, item) :: rest) := by
  have hblank : Blank [' '] := by simp [Blank, isSpace]
  exact (takes_string key).bind (takes_colon.bind
    ((hitem level fuel [' '] hblank hfuel).bind (hrest.map ((.text key, item) :: ·))))

/-- The entries after the first one, and the closing brace. -/
theorem takes_entries {rest : List (Document × Document)}
    (hkeys : ∀ e ∈ rest, ∃ key, e.1 = .text key) (hvalues : ∀ e ∈ rest, ReadsBack depth e.2) {fuel : Nat}
    (hfuel : (Document.prettyEntries level rest).length ≤ fuel) :
    Takes (entries fuel depth false) (Document.prettyEntries level rest) rest := by
  induction rest generalizing fuel with
  | nil =>
    simp only [Document.prettyEntries, List.length_append, List.length_singleton] at hfuel ⊢
    obtain ⟨fuel, rfl⟩ : ∃ n, fuel = n + 1 := ⟨fuel - 1, by omega⟩
    rw [entries]
    have hdone := (takes_moreEntries_done false (blank_newLine level)).bind (f := fun more => if more = true then do
        advance
        let key ← string
        colon
        let item ← value fuel depth
        return (.text key, item) :: (← entries fuel depth false)
      else return []) (Takes.pure [])
    rwa [List.append_nil] at hdone
  | cons e rest ih =>
    obtain ⟨key, item⟩ := e
    obtain ⟨key, rfl⟩ : ∃ k, key = .text k := hkeys _ List.mem_cons_self
    have hitem : ReadsBack depth item := hvalues _ List.mem_cons_self
    simp only [Document.prettyEntries, List.length_append, List.length_cons] at hfuel ⊢
    obtain ⟨fuel, rfl⟩ : ∃ n, fuel = n + 1 := ⟨fuel - 1, by omega⟩
    have hitemfuel : (item.prettyChars (level + 1)).length ≤ fuel := by omega
    have hrestfuel : (Document.prettyEntries level rest).length ≤ fuel := by omega
    have hrest := ih (fun d hd => hkeys d (List.mem_cons_of_mem _ hd))
      (fun d hd => hvalues d (List.mem_cons_of_mem _ hd)) hrestfuel
    have hboth := (takes_entry (level + 1) key hitem hitemfuel hrest).advance (c := '"')
    rw [entries, compactChars_text]
    simp only [List.cons_append, List.append_assoc, List.nil_append] at hboth ⊢
    exact takes_moreEntries_next (blank_newLine (level + 1)) hboth

/-- A printed list behind its bracket. -/
theorem takes_list {all : List Document} (hitems : ∀ d ∈ all, ReadsBack depth d ∧ Opens d) {fuel : Nat}
    (hfuel : (Document.prettyChars level (.list all)).length ≤ fuel + 1) :
    ∃ cs, Document.prettyChars level (.list all) = '[' :: cs ∧ Takes (items fuel depth true) cs all := by
  cases all with
  | nil =>
    simp only [Document.prettyChars, List.length_cons, List.length_nil] at hfuel
    obtain ⟨fuel, rfl⟩ : ∃ n, fuel = n + 1 := ⟨fuel - 1, by omega⟩
    refine ⟨[']'], by rw [Document.prettyChars], ?_⟩
    rw [items]
    exact (takes_moreItems_done true Blank.nil).bind (.pure [])
  | cons item rest =>
    obtain ⟨hitem, hopens⟩ := hitems item List.mem_cons_self
    simp only [Document.prettyChars, List.length_append, List.length_cons] at hfuel
    have hblank : 1 ≤ (Document.newLine (level + 1)).length := by simp [Document.newLine]
    obtain ⟨fuel, rfl⟩ : ∃ n, fuel = n + 1 := ⟨fuel - 1, by omega⟩
    have hitemfuel : (item.prettyChars (level + 1)).length ≤ fuel := by omega
    have hrestfuel : (Document.prettyItems level rest).length ≤ fuel := by omega
    have hrest := takes_items level (fun d hd => hitems d (List.mem_cons_of_mem item hd)) hrestfuel
    have hboth := takes_item (level + 1) hitem hitemfuel hrest
    obtain ⟨c, hc, cs, hcs⟩ := hopens (level + 1)
    refine ⟨_, by rw [Document.prettyChars, List.append_assoc, List.cons_append], ?_⟩
    rw [items]
    rw [hcs] at hboth ⊢
    exact .moreItems_first (blank_newLine (level + 1)) hc hboth

/-- A printed record behind its brace. -/
theorem takes_map {all : List (Document × Document)} (hkeys : ∀ e ∈ all, ∃ key, e.1 = .text key)
    (hvalues : ∀ e ∈ all, ReadsBack depth e.2) {fuel : Nat}
    (hfuel : (Document.prettyChars level (.map all)).length ≤ fuel + 1) :
    ∃ cs, Document.prettyChars level (.map all) = '\x7b' :: cs ∧ Takes (entries fuel depth true) cs all := by
  cases all with
  | nil =>
    simp only [Document.prettyChars, List.length_cons, List.length_nil] at hfuel
    obtain ⟨fuel, rfl⟩ : ∃ n, fuel = n + 1 := ⟨fuel - 1, by omega⟩
    refine ⟨['\x7d'], by rw [Document.prettyChars], ?_⟩
    rw [entries]
    exact (takes_moreEntries_done true Blank.nil).bind (.pure [])
  | cons e rest =>
    obtain ⟨key, item⟩ := e
    obtain ⟨key, rfl⟩ : ∃ k, key = .text k := hkeys _ List.mem_cons_self
    have hitem : ReadsBack depth item := hvalues _ List.mem_cons_self
    simp only [Document.prettyChars, List.length_append, List.length_cons] at hfuel
    have hblank : 1 ≤ (Document.newLine (level + 1)).length := by simp [Document.newLine]
    obtain ⟨fuel, rfl⟩ : ∃ n, fuel = n + 1 := ⟨fuel - 1, by omega⟩
    have hitemfuel : (item.prettyChars (level + 1)).length ≤ fuel := by omega
    have hrestfuel : (Document.prettyEntries level rest).length ≤ fuel := by omega
    have hrest := takes_entries level (fun d hd => hkeys d (List.mem_cons_of_mem _ hd))
      (fun d hd => hvalues d (List.mem_cons_of_mem _ hd)) hrestfuel
    have hboth := (takes_entry (level + 1) key hitem hitemfuel hrest).advance (c := '"')
    refine ⟨Document.newLine (level + 1) ++ '"' :: (key.toList.flatMap Document.jsonChar ++ ['"'] ++
      ([':'] ++ ([' '] ++ item.prettyChars (level + 1) ++ Document.prettyEntries level rest))), ?_, ?_⟩
    · rw [Document.prettyChars, compactChars_text]
      simp only [List.cons_append, List.append_assoc, List.nil_append]
    · rw [entries]
      exact takes_moreEntries_first (blank_newLine (level + 1)) hboth

end

end Json

/-! ## Documents -/

/-- A document made of texts and truth values in lists and records, at most `depth` inside one another. -/
inductive Document.Textual : Nat → Document → Prop
  | null {depth : Nat} : Textual depth .null
  | bool {depth : Nat} (b : Bool) : Textual depth (.bool b)
  | text {depth : Nat} (s : String) : Textual depth (.text s)
  | list {depth : Nat} {items : List Document} (hitems : ∀ d ∈ items, Textual depth d) :
      Textual (depth + 1) (.list items)
  | map {depth : Nat} {entries : List (Document × Document)} (hkeys : ∀ e ∈ entries, ∃ key, e.1 = .text key)
      (hvalues : ∀ e ∈ entries, Textual depth e.2) : Textual (depth + 1) (.map entries)

namespace Document

theorem Textual.record {depth : Nat} {fields : List (String × Document)}
    (h : ∀ f ∈ fields, f.2.Textual depth) : (record fields).Textual (depth + 1) := by
  refine .map ?_ ?_
  · intro e he
    obtain ⟨f, _, rfl⟩ := List.mem_map.mp he
    exact ⟨f.1, rfl⟩
  · intro e he
    obtain ⟨f, hf, rfl⟩ := List.mem_map.mp he
    exact h f hf

/-- What is shallow enough stays so where more is allowed. -/
theorem Textual.mono {depth depth' : Nat} {d : Document} (hd : d.Textual depth)
    (hle : depth ≤ depth') : d.Textual depth' := by
  induction hd generalizing depth' with
  | null => exact .null
  | bool b => exact .bool b
  | text s => exact .text s
  | list hitems ih =>
    obtain ⟨depth', rfl⟩ := Nat.exists_eq_add_of_le' (Nat.lt_of_lt_of_le (Nat.succ_pos _) hle)
    exact .list fun d hd => ih d hd (Nat.le_of_succ_le_succ hle)
  | map hkeys hvalues ih =>
    obtain ⟨depth', rfl⟩ := Nat.exists_eq_add_of_le' (Nat.lt_of_lt_of_le (Nat.succ_pos _) hle)
    exact .map hkeys fun e he => ih e he (Nat.le_of_succ_le_succ hle)

end Document

namespace Json

theorem opens_of_textual {depth : Nat} {d : Document} (hd : d.Textual depth) : Opens d := by
  intro level
  cases hd with
  | null => exact ⟨'n', by simp [openers], _, rfl⟩
  | bool b =>
    cases b with
    | true => exact ⟨'t', by simp [openers], _, rfl⟩
    | false => exact ⟨'f', by simp [openers], _, rfl⟩
  | text s => exact ⟨'"', by simp [openers], _, rfl⟩
  | @list _ items hitems => cases items <;> exact ⟨'[', by simp [openers], _, rfl⟩
  | @map _ entries hkeys hvalues => cases entries <;> exact ⟨'\x7b', by simp [openers], _, rfl⟩

/-- There is something to read in every printed document, so some fuel is there to read it. -/
theorem ReadsBack.of_succ {depth : Nat} {d : Document} (hopens : Opens d)
    (h : ∀ level fuel blanks, Blank blanks → (d.prettyChars level).length ≤ fuel + 1 →
      Takes (value (fuel + 1) depth) (blanks ++ d.prettyChars level) d) : ReadsBack depth d := by
  intro level fuel blanks hblanks hfuel
  cases fuel with
  | succ fuel => exact h level fuel blanks hblanks hfuel
  | zero =>
    obtain ⟨c, _, cs, hcs⟩ := hopens level
    rw [hcs] at hfuel
    exact absurd hfuel (Nat.not_succ_le_zero _)

/-- By induction on the document; a list or a record leaves one level less for what stands in it. -/
theorem readsBack_of_textual {depth : Nat} {d : Document} (hd : d.Textual depth) : ReadsBack depth d := by
  induction hd with
  | @null depth =>
    refine .of_succ (opens_of_textual (Document.Textual.null : Document.Textual depth .null)) fun level fuel blanks hblanks _ => ?_
    have hliteral : Takes (literal ['u', 'l', 'l']) ['u', 'l', 'l'] () := fun _ offset => ⟨offset + 3, rfl⟩
    rw [value]
    exact .peekToken hblanks rfl (hliteral.map fun _ => Document.null).advance
  | @bool depth b =>
    refine .of_succ (opens_of_textual (.bool b : Document.Textual depth (.bool b))) fun level fuel blanks hblanks _ => ?_
    rw [value]
    cases b with
    | true =>
      have hliteral : Takes (literal ['r', 'u', 'e']) ['r', 'u', 'e'] () := fun _ offset => ⟨offset + 3, rfl⟩
      exact .peekToken hblanks rfl (hliteral.map fun _ => Document.bool true).advance
    | false =>
      have hliteral : Takes (literal ['a', 'l', 's', 'e']) ['a', 'l', 's', 'e'] () :=
        fun _ offset => ⟨offset + 4, rfl⟩
      exact .peekToken hblanks rfl (hliteral.map fun _ => Document.bool false).advance
  | @text depth s =>
    refine .of_succ (opens_of_textual (.text s : Document.Textual depth (.text s))) fun level fuel blanks hblanks _ => ?_
    rw [value]
    exact .peekToken hblanks rfl ((takes_string s).map Document.text).advance
  | @list depth items hitems ih =>
    refine .of_succ (opens_of_textual (.list hitems)) fun level fuel blanks hblanks hfuel => ?_
    obtain ⟨cs, hcs, hbody⟩ := takes_list level (fun d hd => ⟨ih d hd, opens_of_textual (hitems d hd)⟩) hfuel
    rw [value, hcs]
    exact .peekToken hblanks rfl (hbody.map Document.list).advance
  | map hkeys hvalues ih =>
    refine .of_succ (opens_of_textual (.map hkeys hvalues)) fun level fuel blanks hblanks hfuel => ?_
    obtain ⟨cs, hcs, hbody⟩ := takes_map level hkeys ih hfuel
    rw [value, hcs]
    exact .peekToken hblanks rfl (hbody.map Document.map).advance

/-- Behind a value there may be blanks. -/
theorem peekToken_blank {blanks : List Char} (hblanks : Blank blanks) (offset : Nat) :
    ∃ offset', Json.peekToken ⟨blanks, offset⟩ = .ok (none, ⟨[], offset'⟩) := by
  have hskip : blanks.dropWhile isSpace = [] := by
    have hall : (blanks ++ []).dropWhile isSpace = [] := List.dropWhile_append_of_pos hblanks
    rwa [List.append_nil] at hall
  refine ⟨offset + (blanks.length - 0), ?_⟩
  show Json.peek ⟨blanks.dropWhile isSpace, _⟩ = _
  rw [hskip]
  rfl

/-- What is printed is read back, and nothing is found behind it but blanks. -/
theorem readLeading_pretty {d : Document} (hd : d.Textual maxDepth) {blanks : List Char}
    (hblanks : Blank blanks) : readLeading (d.pretty ++ String.ofList blanks) = .ok (d, none) := by
  have hchars : (d.pretty ++ String.ofList blanks).toList = d.prettyChars 0 ++ blanks := by
    rw [String.toList_append, String.toList_ofList, Document.pretty, String.toList_ofList]
  have hfuel : (d.prettyChars 0).length ≤ 2 * (d.prettyChars 0 ++ blanks).length + 2 := by
    rw [List.length_append]
    omega
  obtain ⟨offset, hvalue⟩ := readsBack_of_textual hd 0 _ [] Blank.nil hfuel blanks 0
  obtain ⟨offset', hend⟩ := peekToken_blank hblanks offset
  rw [List.nil_append] at hvalue
  have hall : (Json.peekToken >>= fun c =>
      if c.isNone = true then Pure.pure () else failNext .trailingCharacters).run ⟨blanks, offset⟩ =
        .ok ((), ⟨[], offset'⟩) := by
    rw [StateT.run_bind, StateT.run, hend]
    rfl
  rw [readLeading, hchars, StateT.run, hvalue, Outcome.ok_bind]
  dsimp only
  rw [hall]
  rfl

/-- **What is printed is read back**, also with blanks behind it. -/
theorem read_pretty {d : Document} (hd : d.Textual maxDepth) {blanks : List Char} (hblanks : Blank blanks) :
    Json.read (d.pretty ++ String.ofList blanks) = .ok d := by
  rw [Json.read, readLeading_pretty hd hblanks]
  rfl

end Json

end Chronicle
