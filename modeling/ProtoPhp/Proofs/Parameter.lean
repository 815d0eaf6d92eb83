/-
The grammar of the generator parameter.

What an entry of the parameter may look like is said by its written forms, without
reading it.  The parameter is accepted exactly if each of its entries has one of
these forms or is empty, and then the last entry of each kind counts.  The first
entry without a form is the cause of a failure.  So a longer parameter is read part
after part.

* `Setting.Writes` — the written forms of a setting;
* `Setting.parse?_eq_some_iff` — an entry is read exactly if it has such a form;
* `Options.foldlM_entries_eq_ok_iff`, `Options.foldlM_entries_eq_error_iff` — reading the
  entries one by one, from any options on;
* `Options.ofParameter_grammar` — what is accepted, what it stands for, and what is
  refused.
-/
import Mathlib.Data.List.Forall2
import Mathlib.Data.List.Induction
import Mathlib.Data.List.TakeWhile
import ProtoPhp.Options.Parameter

namespace ProtoPhp

namespace Text

/-- A list of characters is what is left after trimming, with blanks around it. -/
theorem exists_blanks_trimChars (cs : List Char) :
    ∃ front back, cs = front ++ trimChars cs ++ back ∧ (∀ c ∈ front, isBlank c = true) ∧
      ∀ c ∈ back, isBlank c = true := by
  have hfront := List.takeWhile_append_dropWhile (p := isBlank) (l := cs)
  have hback := List.takeWhile_append_dropWhile (p := isBlank) (l := (cs.dropWhile isBlank).reverse)
  refine ⟨cs.takeWhile isBlank, ((cs.dropWhile isBlank).reverse.takeWhile isBlank).reverse, ?_,
    fun c hc => List.mem_takeWhile_imp hc,
    fun c hc => List.mem_takeWhile_imp (List.mem_reverse.mp hc)⟩
  have hrest : trimChars cs ++ ((cs.dropWhile isBlank).reverse.takeWhile isBlank).reverse =
      cs.dropWhile isBlank := by
    rw [trimChars, ← List.reverse_append, hback, List.reverse_reverse]
  rw [List.append_assoc, hrest, hfront]

/-- Blanks in front of what starts and ends with other characters are taken away. -/
theorem trimChars_blanks_append {blanks cs : List Char} {first last : Char}
    (hblanks : ∀ c ∈ blanks, isBlank c = true) (hfirst : cs.head? = some first)
    (hlast : cs.getLast? = some last) (h : isBlank first = false) (h' : isBlank last = false) :
    trimChars (blanks ++ cs) = cs := by
  obtain ⟨tail, rfl⟩ := List.head?_eq_some_iff.mp hfirst
  obtain ⟨front, hfront⟩ := List.getLast?_eq_some_iff.mp hlast
  rw [trimChars, List.dropWhile_append_of_pos hblanks, List.dropWhile_cons_of_neg (by simp [h]),
    hfront, List.reverse_append, List.reverse_singleton, List.singleton_append,
    List.dropWhile_cons_of_neg (by simp [h']), List.reverse_cons, List.reverse_reverse]

/-- What is trimmed does not end with a blank. -/
theorem isBlank_getLast?_trimChars {cs : List Char} {last : Char}
    (h : (trimChars cs).getLast? = some last) : isBlank last = false := by
  rw [trimChars, List.getLast?_reverse] at h
  have hne : (cs.dropWhile isBlank).reverse.dropWhile isBlank ≠ [] := by
    rintro e
    rw [e] at h
    cases h
  rw [List.head?_eq_some_head hne, Option.some_inj] at h
  rw [← h]
  simpa using List.head_dropWhile_not isBlank hne

end Text

open Text

namespace Setting

/-- The written forms of a setting. -/
inductive Writes : String → Setting → Prop
  | multifile : Writes "multifile" (.multifile true)
  | value (blanks : String) (h : ∀ c ∈ blanks.toList, isBlank c = true) (on : Bool) :
      Writes ("multifile=" ++ blanks ++ toString on) (.multifile on)
  | suffix (text : String) (h : ∃ c ∈ text.toList, isBlank c = false) :
      Writes ("suffix=" ++ text) (.suffix (trim text))

/-- What a setting says about files for each type. -/
def multifile? : Setting → Option Bool
  | multifile on => some on
  | suffix _ => none

/-- What a setting says about the end of file names. -/
def suffix? : Setting → Option String
  | multifile _ => none
  | suffix text => some text

theorem boolean?_eq_some_iff {value : List Char} {on : Bool} :
    boolean? value = some on ↔ String.ofList (trimChars value) = toString on := by
  have htrue : toString true = "true" := rfl
  have hfalse : toString false = "false" := rfl
  rw [boolean?]
  split_ifs with h h'
  · cases on <;> simp [h, htrue, hfalse]
  · cases on <;> simp [h', htrue, hfalse]
  · cases on <;> simp [h, h', htrue, hfalse]

/-- What reads as a boolean and does not end with a blank is the word for it, with blanks in front. -/
theorem exists_blanks_of_boolean? {value : List Char} {on : Bool} (h : boolean? value = some on)
    (hend : ∀ c, value.getLast? = some c → isBlank c = false) :
    ∃ blanks, value = blanks ++ (toString on).toList ∧ ∀ c ∈ blanks, isBlank c = true := by
  rw [boolean?_eq_some_iff] at h
  have hword : trimChars value = (toString on).toList := by rw [← h, String.toList_ofList]
  obtain ⟨front, back, hvalue, hfront, hback⟩ := exists_blanks_trimChars value
  rw [hword] at hvalue
  refine ⟨front, ?_, hfront⟩
  -- Nothing stands behind the word, since that would be blanks.
  rcases List.eq_nil_or_concat back with rfl | ⟨back, last, rfl⟩
  · rw [hvalue, List.append_nil]
  · have hlast : isBlank last = true := hback last (by simp)
    rw [hend last (by simp [hvalue])] at hlast
    cases hlast

/-- An entry is cut at its first equals sign. -/
theorem parse?_keyed {key : String} (hkey : '=' ∉ key.toList) (value : List Char) :
    parse? (key ++ String.ofList ('=' :: value)) =
      if key = "multifile" then (boolean? value).map .multifile
      else if key = "suffix" ∧ String.ofList (trimChars value) ≠ "" then
        some (.suffix (String.ofList (trimChars value)))
      else none := by
  have hchars : ∀ c ∈ key.toList, (c != '=') = true := by
    intro c hc
    rw [bne_iff_ne]
    rintro rfl
    exact hkey hc
  have hentry : (key ++ String.ofList ('=' :: value)).toList = key.toList ++ '=' :: value := by simp
  rw [parse?, hentry, List.takeWhile_append_of_pos hchars, List.dropWhile_append_of_pos hchars]
  simp

theorem parse?_of_no_equals {entry : String} (h : '=' ∉ entry.toList) :
    parse? entry = if entry = "multifile" then some (.multifile true) else none := by
  have hchars : ∀ c ∈ entry.toList, (c != '=') = true := by
    intro c hc
    rw [bne_iff_ne]
    rintro rfl
    exact h hc
  rw [parse?, List.takeWhile_eq_self_iff.mpr hchars, List.dropWhile_eq_nil_iff.mpr hchars,
    String.ofList_toList]

/-- A written form of a setting is read as this setting. -/
theorem parse?_of_writes {entry : String} {s : Setting} (h : Writes entry s) :
    parse? entry = some s := by
  rcases h with (_ | ⟨blanks, hblanks, on⟩ | ⟨text, c, hc, hblank⟩)
  · rfl
  · have hentry : "multifile=" ++ blanks ++ toString on =
        "multifile" ++ String.ofList ('=' :: (blanks.toList ++ (toString on).toList)) := by
      apply String.ext
      simp
    have htrim : trimChars (blanks.toList ++ (toString on).toList) = (toString on).toList := by
      cases on with
      | true => exact trimChars_blanks_append hblanks rfl rfl rfl rfl
      | false => exact trimChars_blanks_append hblanks rfl rfl rfl rfl
    have hvalue : boolean? (blanks.toList ++ (toString on).toList) = some on :=
      boolean?_eq_some_iff.mpr (by rw [htrim, String.ofList_toList])
    rw [hentry, parse?_keyed (by decide), if_pos rfl, hvalue]
    rfl
  · have hentry : "suffix=" ++ text = "suffix" ++ String.ofList ('=' :: text.toList) := by
      apply String.ext
      simp
    have hne : String.ofList (trimChars text.toList) ≠ "" := by
      intro e
      have hall := trim_eq_empty_iff.mp e c hc
      rw [hblank] at hall
      cases hall
    rw [hentry, parse?_keyed (by decide), if_neg (by decide), if_pos ⟨rfl, hne⟩]
    rfl

/-- An entry that is read as a setting is a written form of it, unless blanks stand behind it. -/
theorem writes_of_parse? {entry : String} {s : Setting} (h : parse? entry = some s)
    (hend : ∀ c, entry.toList.getLast? = some c → isBlank c = false) : Writes entry s := by
  by_cases hequals : '=' ∈ entry.toList
  · obtain ⟨key, value, hchars, hkey⟩ := List.eq_append_cons_of_mem hequals
    have hentry : entry = String.ofList key ++ String.ofList ('=' :: value) := by
      apply String.ext
      simp [hchars]
    rw [hentry, parse?_keyed (by simpa using hkey)] at h
    split at h
    · rename_i hname
      obtain ⟨on, hon, rfl⟩ := Option.map_eq_some_iff.mp h
      have hvalue : ∀ c, value.getLast? = some c → isBlank c = false := by
        intro c hc
        refine hend c ?_
        rw [hchars, List.getLast?_append, List.getLast?_cons, hc]
        rfl
      obtain ⟨blanks, rfl, hblanks⟩ := exists_blanks_of_boolean? hon hvalue
      have hwritten : entry = "multifile=" ++ String.ofList blanks ++ toString on := by
        rw [hentry, hname]
        apply String.ext
        simp
      rw [hwritten]
      exact .value _ (by simpa using hblanks) on
    · split at h
      · rename_i hname
        cases h
        have hwritten : entry = "suffix=" ++ String.ofList value := by
          rw [hentry, hname.1]
          apply String.ext
          simp
        have htrim : trim (String.ofList value) = String.ofList (trimChars value) := by
          rw [trim, String.toList_ofList]
        have hsome : ∃ c ∈ (String.ofList value).toList, isBlank c = false := by
          by_contra hnone
          refine hname.2 (htrim ▸ trim_eq_empty_iff.mpr fun c hc => ?_)
          by_contra hc'
          exact hnone ⟨c, hc, by simpa using hc'⟩
        rw [hwritten, ← htrim]
        exact .suffix _ hsome
      · cases h
  · rw [parse?_of_no_equals hequals] at h
    split at h
    · rename_i hentry
      cases h
      rw [hentry]
      exact .multifile
    · cases h

theorem Writes.ne_empty {entry : String} {s : Setting} (h : Writes entry s) : entry ≠ "" := by
  rcases h with (_ | _ | _) <;> simp [String.append_eq_empty_iff]

end Setting

namespace Options

/-- Options changed by settings, of which the last of each kind counts. -/
def override (o : Options) (settings : List Setting) : Options :=
  { o with
    multifile := (settings.filterMap Setting.multifile?).getLast?.getD o.multifile
    suffix := (settings.filterMap Setting.suffix?).getLast? <|> o.suffix }

/-- Says nothing or is the written form of a setting. -/
def IsEntry (entry : String) : Prop := entry = "" ∨ ∃ s, Setting.Writes entry s

/-- The settings that are written by the entries of a parameter, empty ones apart. -/
def Lists (entries : List String) (settings : List Setting) : Prop :=
  List.Forall₂ Setting.Writes (entries.filter (· ≠ "")) settings

theorem foldl_apply (settings : List Setting) (o : Options) :
    settings.foldl apply o = o.override settings := by
  induction settings using List.reverseRecOn with
  | nil => rfl
  | append_singleton settings s ih =>
    rw [List.foldl_append, ih]
    cases s with
    | multifile on => simp [override, apply, Setting.multifile?, Setting.suffix?]
    | suffix text => simp [override, apply, Setting.multifile?, Setting.suffix?]

/-- The entries of a parameter do not end with blanks. -/
theorem isBlank_of_mem_entries {parameter entry : String} (h : entry ∈ entries parameter) :
    ∀ c, entry.toList.getLast? = some c → isBlank c = false := by
  obtain ⟨cs, -, rfl⟩ := List.mem_map.mp h
  intro c hc
  rw [String.toList_ofList] at hc
  exact isBlank_getLast?_trimChars hc

theorem entries_of_no_comma {text : String} (h : ',' ∉ text.toList) : entries text = [trim text] := by
  rw [entries, List.splitOn_eq_singleton h, List.map_singleton, trim]

theorem entries_append (a b : String) : entries (a ++ "," ++ b) = entries a ++ entries b := by
  have htext : (a ++ "," ++ b).toList = a.toList ++ ',' :: b.toList := by simp
  rw [entries, htext, List.splitOn_append_cons_self, List.map_append, entries, entries]

theorem applyEntry_empty (o : Options) : applyEntry o "" = .ok o := rfl

theorem applyEntry_of_writes {entry : String} {s : Setting} (h : Setting.Writes entry s)
    (o : Options) : applyEntry o entry = .ok (o.apply s) := by
  rw [applyEntry, if_neg (by simpa using h.ne_empty), Setting.parse?_of_writes h]

theorem applyEntry_of_not_isEntry {entry : String}
    (hend : ∀ c, entry.toList.getLast? = some c → isBlank c = false) (h : ¬IsEntry entry)
    (o : Options) : applyEntry o entry = .error (.invalidParameter entry) := by
  rw [IsEntry, not_or] at h
  rw [applyEntry, if_neg (by simpa using h.1)]
  cases hparse : Setting.parse? entry with
  | none => rfl
  | some s => exact absurd ⟨s, Setting.writes_of_parse? hparse hend⟩ h.2

/-- Entries that write settings are read as these settings, one after the other. -/
theorem foldlM_of_lists {es : List String} {settings : List Setting} (h : Lists es settings)
    (o : Options) : es.foldlM applyEntry o = .ok (o.override settings) := by
  rw [← foldl_apply]
  induction es generalizing settings o with
  | nil =>
    rw [Lists, List.filter_nil, List.forall₂_nil_left_iff] at h
    rw [h]
    rfl
  | cons entry es ih =>
    rw [List.foldlM_cons]
    by_cases hempty : entry = ""
    · rw [Lists, List.filter_cons_of_neg (by simpa using hempty)] at h
      rw [hempty, applyEntry_empty]
      exact ih h o
    · rw [Lists, List.filter_cons_of_pos (by simpa using hempty), List.forall₂_cons_left_iff] at h
      obtain ⟨s, later, hs, hlater, rfl⟩ := h
      rw [applyEntry_of_writes hs]
      exact ih hlater (o.apply s)

theorem exists_lists {es : List String} (h : ∀ entry ∈ es, IsEntry entry) :
    ∃ settings, Lists es settings := by
  induction es with
  | nil => exact ⟨[], .nil⟩
  | cons entry es ih =>
    obtain ⟨settings, hsettings⟩ := ih fun x hx => h x (List.mem_cons_of_mem _ hx)
    by_cases hempty : entry = ""
    · refine ⟨settings, ?_⟩
      rwa [Lists, List.filter_cons_of_neg (by simpa using hempty)]
    · obtain ⟨s, hs⟩ := (h entry List.mem_cons_self).resolve_left hempty
      refine ⟨s :: settings, ?_⟩
      rw [Lists, List.filter_cons_of_pos (by simpa using hempty)]
      exact .cons hs hsettings

theorem Lists.isEntry {es : List String} {settings : List Setting} (h : Lists es settings) :
    ∀ entry ∈ es, IsEntry entry := by
  intro entry hentry
  by_cases hempty : entry = ""
  · exact .inl hempty
  · have hmem : entry ∈ es.filter (· ≠ "") := List.mem_filter.mpr ⟨hentry, by simpa using hempty⟩
    obtain ⟨i, hi, rfl⟩ := List.getElem_of_mem hmem
    exact .inr ⟨_, h.get hi (h.length_eq ▸ hi)⟩

/-- The first entry that is none ends the reading. -/
theorem foldlM_of_not_isEntry {before after : List String} {entry : String}
    (hbefore : ∀ x ∈ before, IsEntry x)
    (hend : ∀ c, entry.toList.getLast? = some c → isBlank c = false) (h : ¬IsEntry entry)
    (o : Options) :
    (before ++ entry :: after).foldlM applyEntry o = .error (.invalidParameter entry) := by
  obtain ⟨settings, hsettings⟩ := exists_lists hbefore
  rw [List.foldlM_append, foldlM_of_lists hsettings]
  show (entry :: after).foldlM applyEntry _ = _
  rw [List.foldlM_cons, applyEntry_of_not_isEntry hend h]
  rfl

/-- Either all entries write settings, or there is a first one that does not. -/
theorem exists_lists_or (es : List String) :
    (∃ settings, Lists es settings) ∨ ∃ before entry after, es = before ++ entry :: after ∧
      (∀ x ∈ before, IsEntry x) ∧ ¬IsEntry entry := by
  induction es with
  | nil => exact .inl ⟨[], .nil⟩
  | cons entry es ih =>
    by_cases h : IsEntry entry
    · rcases ih with ⟨settings, hsettings⟩ | ⟨before, x, after, rfl, hbefore, hx⟩
      · exact .inl (exists_lists (List.forall_mem_cons.mpr ⟨h, hsettings.isEntry⟩))
      · exact .inr ⟨entry :: before, x, after, rfl, List.forall_mem_cons.mpr ⟨h, hbefore⟩, hx⟩
    · exact .inr ⟨[], entry, es, rfl, nofun, h⟩

/-- From any options on, a parameter is read if its entries write settings. -/
theorem foldlM_entries_eq_ok_iff (parameter : String) (o o' : Options) :
    (entries parameter).foldlM applyEntry o = .ok o' ↔
      ∃ settings, Lists (entries parameter) settings ∧ o' = o.override settings := by
  constructor
  · intro h
    rcases exists_lists_or (entries parameter) with
      ⟨settings, hsettings⟩ | ⟨before, entry, after, hes, hbefore, hentry⟩
    · rw [foldlM_of_lists hsettings, Except.ok.injEq] at h
      exact ⟨settings, hsettings, h.symm⟩
    · have hmem : entry ∈ entries parameter := by simp [hes]
      have hend := isBlank_of_mem_entries hmem
      rw [hes, foldlM_of_not_isEntry hbefore hend hentry] at h
      cases h
  · rintro ⟨settings, hsettings, rfl⟩
    exact foldlM_of_lists hsettings o

/-- From any options on, the first entry without a written form is refused. -/
theorem foldlM_entries_eq_error_iff (parameter : String) (o : Options) (e : Error) :
    (entries parameter).foldlM applyEntry o = .error e ↔
      ∃ before entry after, entries parameter = before ++ entry :: after ∧
        (∀ x ∈ before, IsEntry x) ∧ ¬IsEntry entry ∧ e = .invalidParameter entry := by
  have hrefused : ∀ {before after : List String} {entry : String},
      entries parameter = before ++ entry :: after → (∀ x ∈ before, IsEntry x) → ¬IsEntry entry →
      (entries parameter).foldlM applyEntry o = .error (.invalidParameter entry) := by
    intro before after entry hes hbefore hentry
    have hmem : entry ∈ entries parameter := by simp [hes]
    have hend := isBlank_of_mem_entries hmem
    rw [hes]
    exact foldlM_of_not_isEntry hbefore hend hentry o
  constructor
  · intro h
    rcases exists_lists_or (entries parameter) with
      ⟨settings, hsettings⟩ | ⟨before, entry, after, hes, hbefore, hentry⟩
    · rw [foldlM_of_lists hsettings] at h
      cases h
    · rw [hrefused hes hbefore hentry, Except.error.injEq] at h
      exact ⟨before, entry, after, hes, hbefore, hentry, h.symm⟩
  · rintro ⟨before, entry, after, hes, hbefore, hentry, rfl⟩
    exact hrefused hes hbefore hentry

theorem ofParameter_append (a b : String) :
    ofParameter (a ++ "," ++ b) = ofParameter a >>= (entries b).foldlM applyEntry := by
  rw [ofParameter, entries_append, List.foldlM_append, ofParameter]

/-- The entries of a parameter stand between its commas, without the blanks around them.  They are
accepted exactly if each of them is empty or has a written form.  Then the last setting of each kind
counts, and the parameter says nothing of packages and namespaces.  The first other entry is the cause
of the failure.  Of two parameters with a comma between, the first is read first, and the settings of
the second override what the first says. -/
theorem ofParameter_grammar (parameter : String) :
    (',' ∉ parameter.toList → entries parameter = [trim parameter]) ∧
      (∀ more, entries (parameter ++ "," ++ more) = entries parameter ++ entries more) ∧
      ((∃ o, ofParameter parameter = .ok o) ↔ ∀ entry ∈ entries parameter, IsEntry entry) ∧
      (∀ o, ofParameter parameter = .ok o ↔
        ∃ settings, Lists (entries parameter) settings ∧
          o = { package := none
                namespaceText := none
                multifile := (settings.filterMap Setting.multifile?).getLast?.getD false
                suffix := (settings.filterMap Setting.suffix?).getLast? }) ∧
      (∀ e, ofParameter parameter = .error e ↔
        ∃ before entry after, entries parameter = before ++ entry :: after ∧
          (∀ x ∈ before, IsEntry x) ∧ ¬IsEntry entry ∧ e = .invalidParameter entry) ∧
      ∀ more : String,
        (∀ e, ofParameter parameter = .error e → ofParameter (parameter ++ "," ++ more) = .error e) ∧
          ∀ o, ofParameter parameter = .ok o →
            (∀ e, ofParameter more = .error e → ofParameter (parameter ++ "," ++ more) = .error e) ∧
            ∀ settings, Lists (entries more) settings →
              ofParameter (parameter ++ "," ++ more) = .ok (o.override settings) := by
  have hoverride : ∀ settings : List Setting, override {} settings =
      { package := none
        namespaceText := none
        multifile := (settings.filterMap Setting.multifile?).getLast?.getD false
        suffix := (settings.filterMap Setting.suffix?).getLast? } := by
    intro settings
    simp [override]
  have hok : ∀ o, ofParameter parameter = .ok o ↔
      ∃ settings, Lists (entries parameter) settings ∧ o = override {} settings :=
    foldlM_entries_eq_ok_iff parameter {}
  refine ⟨entries_of_no_comma, entries_append parameter, ?_, ?_,
    foldlM_entries_eq_error_iff parameter {}, fun more => ?_⟩
  · constructor
    · rintro ⟨o, ho⟩
      obtain ⟨settings, hsettings, -⟩ := (hok o).mp ho
      exact hsettings.isEntry
    · intro hentries
      obtain ⟨settings, hsettings⟩ := exists_lists hentries
      exact ⟨_, (hok _).mpr ⟨settings, hsettings, rfl⟩⟩
  · intro o
    simpa only [hoverride] using hok o
  · rw [ofParameter_append]
    refine ⟨fun e he => by rw [he]; rfl, fun o ho => ?_⟩
    rw [ho]
    show (∀ e, _ → (entries more).foldlM applyEntry o = _) ∧
      ∀ settings, _ → (entries more).foldlM applyEntry o = _
    refine ⟨fun e he => ?_, fun settings hsettings => foldlM_of_lists hsettings o⟩
    -- Which entry is refused does not depend on the options so far.
    exact (foldlM_entries_eq_error_iff more o e).mpr
      ((foldlM_entries_eq_error_iff more {} e).mp he)

/-- Blanks around entries and in front of a value, an equals sign in a value, an empty entry, and two
entries of one kind. -/
example : Options.ofParameter " multifile=\u2003false ,suffix= .a=b,, multifile\t" =
    .ok { multifile := true, suffix := some ".a=b" } := by
  decide +kernel

end Options

end ProtoPhp
