import SoulCoreKit.Observability.Metrics
import SoulCoreKit.Lib.LabelSyntax

/-!
# Labels come back

What `formatLabels` writes is one line, and the reader of the exposition format has the texts of the labels
from it. These are the labels themselves where every value is UTF-16; a surrogate without its other half has
become a question mark.
-/

namespace SoulCoreKit.Observability

open SoulCoreKit.JsonHelper SoulCoreKit.Unicode SoulCoreKit.Lib.LabelSyntax

/-- The texts of a label as they are exported. -/
def asText (label : QString × QString) : List Char × List Char :=
  ((toStdString label.1).toList, (toStdString label.2).toList)

/-- A label that was read, in UTF-16. -/
def ofText (entry : List Char × List Char) : QString × QString := (utf16 entry.1, utf16 entry.2)

def ValidNames (labels : Labels) : Prop :=
  ∀ label ∈ labels, ∃ name, isName name = true ∧ label.1 = utf16 name

/-- Every value is the encoding of some text. -/
def WellFormed (labels : Labels) : Prop := ∀ label ∈ labels, ∃ value, label.2 = utf16 value

theorem toList_toStdString_utf16 (text : List Char) : (toStdString (utf16 text)).toList = text := by
  rw [toStdString, String.toList_ofList, ofUtf16_utf16]

theorem isName_asText {labels : Labels} (hnames : ValidNames labels) {label : QString × QString}
    (hlabel : label ∈ labels) : isName (asText label).1 = true := by
  obtain ⟨name, hname, hkey⟩ := hnames label hlabel
  rwa [asText, hkey, toList_toStdString_utf16]

/-! ### One line -/

theorem newline_not_mem_escapeLabelChar (c : Char) : '\n' ∉ escapeLabelChar c := by
  unfold escapeLabelChar
  split_ifs with hbackslash hquote hnewline
  · decide
  · decide
  · decide
  · exact fun hmem => hnewline (List.mem_singleton.mp hmem).symm

theorem newline_not_mem_escapeLabelValue (value : List Char) : '\n' ∉ escapeLabelValue value := by
  intro hmem
  obtain ⟨c, -, hc⟩ := List.mem_flatMap.mp hmem
  exact newline_not_mem_escapeLabelChar c hc

theorem newline_not_mem_formatLabel {label : QString × QString} (hname : isName (asText label).1 = true) :
    '\n' ∉ formatLabel label := by
  intro hmem
  obtain hkey | hmem := List.mem_append.mp hmem
  · exact absurd (isNameChar_of_isName hname _ hkey) (by decide)
  obtain hequals | hmem := List.mem_cons.mp hmem
  · exact absurd hequals (by decide)
  obtain hquote | hmem := List.mem_cons.mp hmem
  · exact absurd hquote (by decide)
  obtain hvalue | hquote := List.mem_append.mp hmem
  · exact newline_not_mem_escapeLabelValue _ hvalue
  · exact absurd hquote (by decide)

theorem newline_not_mem_formatEntries (first : Bool) {labels : Labels} (hnames : ValidNames labels) :
    '\n' ∉ formatEntries first labels := by
  induction labels generalizing first with
  | nil => exact List.not_mem_nil
  | cons label labels ih =>
      obtain ⟨-, hrest⟩ := List.forall_mem_cons.mp hnames
      have hname := isName_asText hnames List.mem_cons_self
      intro hmem
      obtain hcomma | hmem := List.mem_append.mp hmem
      · cases first <;> exact absurd hcomma (by decide)
      obtain hlabel | hmem := List.mem_append.mp hmem
      · exact newline_not_mem_formatLabel hname hlabel
      · exact ih false hrest hmem

theorem newline_not_mem_formatLabels {labels : Labels} (hnames : ValidNames labels) :
    '\n' ∉ formatLabels labels := by
  unfold formatLabels
  split
  · exact List.not_mem_nil
  · have hentries := newline_not_mem_formatEntries true hnames
    simpa using hentries

/-! ### Reading -/

section

variable (entries : Entries) (name value : List Char)

theorem readFrom_escapeLabelChar (c : Char) (rest : List Char) :
    readFrom (.value entries name value) (escapeLabelChar c ++ rest) =
      readFrom (.value entries name (value ++ [c])) rest := by
  unfold escapeLabelChar
  split_ifs with hbackslash hquote hnewline
  · subst hbackslash
    exact readFrom_escaped entries name value rfl rest
  · subst hquote
    exact readFrom_escaped entries name value rfl rest
  · subst hnewline
    exact readFrom_escaped entries name value rfl rest
  · exact readFrom_plain entries name value hbackslash hquote hnewline rest

theorem readFrom_escapeLabelValue (text rest : List Char) :
    readFrom (.value entries name value) (escapeLabelValue text ++ rest) =
      readFrom (.value entries name (value ++ text)) rest := by
  induction text generalizing value with
  | nil => rw [List.append_nil]; rfl
  | cons c text ih =>
      calc readFrom (.value entries name value) (escapeLabelValue (c :: text) ++ rest)
          = readFrom (.value entries name value) (escapeLabelChar c ++ (escapeLabelValue text ++ rest)) := by
            rw [escapeLabelValue, List.flatMap_cons, List.append_assoc]
            rfl
        _ = readFrom (.value entries name (value ++ [c])) (escapeLabelValue text ++ rest) :=
            readFrom_escapeLabelChar entries name value c _
        _ = readFrom (.value entries name (value ++ c :: text)) rest := by
            rw [ih, List.append_assoc, List.singleton_append]

end

theorem readFrom_formatLabel (entries : Entries) {label : QString × QString}
    (hname : isName (asText label).1 = true) (rest : List Char) :
    readFrom (.name entries []) (formatLabel label ++ rest) =
      readFrom (.quoted (entries ++ [asText label])) rest := by
  have hparts : formatLabel label ++ rest =
      (asText label).1 ++ '=' :: '\x22' :: (escapeLabelValue (asText label).2 ++ '\x22' :: rest) := by
    simp [formatLabel, asText]
  rw [hparts, readFrom_name entries hname, readFrom_openQuote, readFrom_escapeLabelValue, List.nil_append,
    readFrom_closeQuote]

/-- What the loop writes after an entry, with the brace. -/
theorem readFrom_formatEntries (entries : Entries) {labels : Labels} (hnames : ValidNames labels)
    (rest : List Char) :
    readFrom (.quoted entries) (formatEntries false labels ++ '\x7d' :: rest) =
      some (entries ++ labels.map asText, rest) := by
  induction labels generalizing entries with
  | nil => rw [List.map_nil, List.append_nil]; exact readFrom_close entries rest
  | cons label labels ih =>
      obtain ⟨-, hrest⟩ := List.forall_mem_cons.mp hnames
      have hname := isName_asText hnames List.mem_cons_self
      have hparts : formatEntries false (label :: labels) ++ '\x7d' :: rest =
          ',' :: (formatLabel label ++ (formatEntries false labels ++ '\x7d' :: rest)) := by
        simp [formatEntries]
      rw [hparts, readFrom_comma, readFrom_formatLabel entries hname, ih _ hrest, List.map_cons,
        List.append_assoc, List.singleton_append]

/-- A sample line, from the end of its metric's name on. -/
theorem readLabels_formatLabels {labels : Labels} (hnames : ValidNames labels) (rest : List Char) :
    readLabels (formatLabels labels ++ ' ' :: rest) = some (labels.map asText, ' ' :: rest) := by
  cases labels with
  | nil => rfl
  | cons label labels =>
      obtain ⟨-, hrest⟩ := List.forall_mem_cons.mp hnames
      have hname := isName_asText hnames List.mem_cons_self
      have hparts : formatLabels (label :: labels) ++ ' ' :: rest =
          '\x7b' :: (formatLabel label ++ (formatEntries false labels ++ '\x7d' :: ' ' :: rest)) := by
        simp [formatLabels, formatEntries]
      rw [hparts, readLabels, if_pos rfl, readFrom_formatLabel [] hname, readFrom_formatEntries _ hrest]
      rfl

/-! ### What comes back -/

theorem ofText_asText_iff {label : QString × QString} {name : List Char} (hkey : label.1 = utf16 name) :
    ofText (asText label) = label ↔ ∃ value, label.2 = utf16 value := by
  constructor
  · intro hback
    exact ⟨_, (congrArg Prod.snd hback).symm⟩
  · rintro ⟨value, hvalue⟩
    apply Prod.ext
    · rw [ofText, asText, hkey, toList_toStdString_utf16]
    · rw [ofText, asText, hvalue, toList_toStdString_utf16]

theorem map_ofText_asText_iff {labels : Labels} (hnames : ValidNames labels) :
    (labels.map asText).map ofText = labels ↔ WellFormed labels := by
  have hid : labels.map id = labels := List.map_id labels
  conv_lhs => rhs; rw [← hid]
  rw [List.map_map, List.map_inj_left]
  refine forall₂_congr fun label hlabel => ?_
  obtain ⟨name, -, hkey⟩ := hnames label hlabel
  exact ofText_asText_iff hkey

/-- Labels that are told apart in the samples of a metric. -/
structure Unambiguous (labels : Labels) : Prop where
  oneLine : '\n' ∉ formatLabels labels
  read : ∀ rest, readLabels (formatLabels labels ++ ' ' :: rest) = some (labels.map asText, ' ' :: rest)
  back : (labels.map asText).map ofText = labels ↔ WellFormed labels
  distinct : WellFormed labels → ∀ labels', ValidNames labels' → WellFormed labels' → labels ≠ labels' →
    ∀ name rest rest',
      name ++ (formatLabels labels ++ ' ' :: rest) ≠ name ++ (formatLabels labels' ++ ' ' :: rest')

/-- Labels with valid names are read as they were written, and the values come back where they are UTF-16. -/
theorem labels_unambiguous {labels : Labels} (hnames : ValidNames labels) : Unambiguous labels where
  oneLine := newline_not_mem_formatLabels hnames
  read := readLabels_formatLabels hnames
  back := map_ofText_asText_iff hnames
  distinct := by
    intro hvalues labels' hnames' hvalues' hne name rest rest' hsame
    have hline := congrArg readLabels (List.append_cancel_left hsame)
    rw [readLabels_formatLabels hnames, readLabels_formatLabels hnames'] at hline
    have htexts : labels.map asText = labels'.map asText := congrArg Prod.fst (Option.some.inj hline)
    apply hne
    calc labels = (labels.map asText).map ofText := ((map_ofText_asText_iff hnames).mpr hvalues).symm
      _ = (labels'.map asText).map ofText := congrArg (List.map ofText) htexts
      _ = labels' := (map_ofText_asText_iff hnames').mpr hvalues'

theorem labels_unambiguous_path : Unambiguous [(utf16 ['p', '1'], utf16 ['\x22', '\x5c', '\n', ','])] := by
  apply labels_unambiguous
  intro label hlabel
  exact ⟨['p', '1'], rfl, congrArg Prod.fst (List.mem_singleton.mp hlabel)⟩

/-- Two values that are a lone surrogate each are both exported as a question mark. -/
theorem lone_surrogates_collide :
    ValidNames [(utf16 ['p'], [0xD800])] ∧ ValidNames [(utf16 ['p'], [0xD801])] ∧
      ([(utf16 ['p'], [0xD800])] : Labels) ≠ [(utf16 ['p'], [0xD801])] ∧
      formatLabels [(utf16 ['p'], [0xD800])] = formatLabels [(utf16 ['p'], [0xD801])] := by
  refine ⟨?_, ?_, by decide, by decide +kernel⟩ <;> intro label hlabel <;>
    exact ⟨['p'], rfl, congrArg Prod.fst (List.mem_singleton.mp hlabel)⟩

end SoulCoreKit.Observability
