import SoulCoreKit.Configuration.EtcdSource

/-!
# A published configuration is not found again

`publishConfig` writes the key without the slash that `fetchConfig` puts at its end, and the range that
`fetchConfig` asks for is empty: its end is the key cut off at its last character but one, by the
number of code units and not of bytes, with a zero byte behind, and no key lies between the two.
-/

namespace SoulCoreKit.Configuration

variable {Double : Type}

theorem toUtf8_eq_cons {text : QString} (hne : text ≠ []) :
    ∃ first rest, toUtf8 text = first :: rest := by
  obtain ⟨c, rest, rfl⟩ := List.exists_cons_of_ne_nil hne
  apply List.exists_cons_of_ne_nil
  intro hnil
  rw [toUtf8, List.flatMap_cons, List.append_eq_nil_iff] at hnil
  exact String.utf8EncodeChar_ne_nil hnil.1

theorem codeUnits_le_utf8 (c : Char) :
    (if c.toNat < 0x10000 then 1 else 2) ≤ (String.utf8EncodeChar c).length := by
  have hnat : c.toNat = c.val.toNat := rfl
  rw [hnat]
  fun_cases String.utf8EncodeChar c <;> split <;> simp only [List.length_cons, List.length_nil] <;> omega

theorem utf16Length_le_utf8 (text : QString) : utf16Length text ≤ (toUtf8 text).length := by
  induction text with
  | nil => exact Nat.le_refl 0
  | cons c rest ih =>
    have hc := codeUnits_le_utf8 c
    simp only [utf16Length, toUtf8, List.map_cons, List.sum_cons, List.flatMap_cons,
      List.length_append] at ih ⊢
    omega

/-- What is less than a key with its tail replaced by a zero byte is less than the key. -/
theorem lt_of_lt_take_zero {key stored : List UInt8} {n : Nat} (hn : n < key.length)
    (hless : stored < key.take n ++ [0]) : stored < key := by
  induction n generalizing key stored with
  | zero =>
    cases key with
    | nil => cases hn
    | cons first rest =>
      cases stored with
      | nil => exact List.nil_lt_cons first rest
      | cons head tail =>
        rw [List.take_zero, List.nil_append, List.cons_lt_cons_iff] at hless
        rcases hless with hhead | ⟨_, htail⟩
        · exact absurd hhead UInt8.not_lt_zero
        · exact absurd htail (List.not_lt_nil tail)
  | succ n ih =>
    cases key with
    | nil => cases hn
    | cons first rest =>
      cases stored with
      | nil => exact List.nil_lt_cons first rest
      | cons head tail =>
        rw [List.take_succ_cons, List.cons_append, List.cons_lt_cons_iff] at hless
        rw [List.cons_lt_cons_iff]
        exact hless.imp_right (And.imp_right (ih (Nat.lt_of_succ_lt_succ hn)))

namespace EtcdConfigSource

variable (lib : JsonLibrary Double (List UInt8)) (delivery : Delivery) (etcd : Etcd Double)
  (namespaceName : QString)

theorem utf16Length_append (first second : QString) :
    utf16Length (first ++ second) = utf16Length first + utf16Length second := by
  rw [utf16Length, List.map_append, List.sum_append]
  rfl

theorem utf16Length_fetchKey : 9 ≤ utf16Length (fetchKey namespaceName) := by
  -- stated for any two texts: comparing the literals would evaluate them
  have hlength : ∀ front back : QString, utf16Length front = 8 → utf16Length back = 1 →
      9 ≤ utf16Length (front ++ namespaceName ++ back) := by
    intro front back hfront hback
    rw [utf16Length_append, utf16Length_append]
    omega
  exact hlength _ _ (by simp [utf16Length]) (by simp [utf16Length])

theorem length_fetchRangeEnd :
    (fetchRangeEnd namespaceName).length = utf16Length (fetchKey namespaceName) := by
  have hunits := utf16Length_fetchKey namespaceName
  have hbytes := utf16Length_le_utf8 (fetchKey namespaceName)
  rw [fetchRangeEnd, List.length_take, List.length_append, List.length_take, List.length_singleton]
  omega

theorem not_inRange (stored : List UInt8) :
    Etcd.inRange (toUtf8 (fetchKey namespaceName)) (fetchRangeEnd namespaceName) stored = false := by
  have hunits := utf16Length_fetchKey namespaceName
  have hbytes := utf16Length_le_utf8 (fetchKey namespaceName)
  have hlength := length_fetchRangeEnd namespaceName
  have hnil : fetchRangeEnd namespaceName ≠ [] := by
    intro heq
    rw [heq] at hlength
    simp at hlength
    omega
  have hzero : fetchRangeEnd namespaceName ≠ [0] := by
    intro heq
    rw [heq] at hlength
    simp at hlength
    omega
  rw [Etcd.inRange, if_neg hnil, if_neg hzero, decide_eq_false_iff_not]
  rintro ⟨hfrom, hto⟩
  have htake : fetchRangeEnd namespaceName = (toUtf8 (fetchKey namespaceName)).take
      (utf16Length (fetchKey namespaceName) - 1) ++ [0] := by
    apply List.take_of_length_le
    rw [List.length_append, List.length_take, List.length_singleton]
    omega
  rw [htake] at hto
  exact hfrom (lt_of_lt_take_zero (by omega) hto)

/-- The answer to the request of `fetchConfig`, whatever the server holds. -/
theorem range_fetchRequest :
    etcd.range (fetchRequest namespaceName) =
      (some (.object [("header".toList, etcd.header)]), etcd) := by
  have hfound : (etcd.entries.filter fun entry => Etcd.inRange (toUtf8 (fetchKey namespaceName))
      (fetchRangeEnd namespaceName) entry.1) = [] := by
    rw [List.filter_eq_nil_iff]
    intro entry _
    rw [not_inRange]
    exact Bool.false_ne_true
  obtain ⟨first, rest, hkey⟩ : ∃ first rest, toUtf8 (fetchKey namespaceName) = first :: rest :=
    toUtf8_eq_cons (List.append_ne_nil_of_left_ne_nil
      (List.append_ne_nil_of_left_ne_nil (by simp) namespaceName) _)
  have hasked : Base64.decode (encodeBase64 (toUtf8 (fetchKey namespaceName))) = first :: rest := by
    rw [encodeBase64, Base64.decode_encode, hkey]
  have hend : Base64.decode (encodeBase64 (fetchRangeEnd namespaceName)) =
      fetchRangeEnd namespaceName := Base64.decode_encode _
  rw [hkey] at hfound
  simp [Etcd.range, fetchRequest, Json.getString, Json.find, List.lookup_cons, hasked, hend, hfound]

theorem fetchConfig_answered :
    fetchConfig lib .answered etcd namespaceName =
      .error ⟨.notFound, "Etcd config not found: " ++ String.ofList namespaceName⟩ := by
  simp only [fetchConfig, syncPost, range_fetchRequest]
  rfl

theorem fetchConfig_ne_ok (found : Json Double) :
    fetchConfig lib delivery etcd namespaceName ≠ .ok found := by
  cases delivery with
  | lost => simp [fetchConfig, syncPost]
  | unanswered => simp [fetchConfig, syncPost]
  | truncated => simp [fetchConfig, syncPost, range_fetchRequest]
  | answered => simp [fetchConfig_answered]

theorem publishConfig_answered (endpoints : QString) (config : Json Double) :
    (publishConfig lib .answered etcd namespaceName endpoints config).1 = .ok () := by
  obtain ⟨first, rest, hkey⟩ : ∃ first rest, toUtf8 (publishKey namespaceName) = first :: rest :=
    toUtf8_eq_cons (List.append_ne_nil_of_left_ne_nil (by simp) namespaceName)
  have hwritten : Base64.decode (encodeBase64 (toUtf8 (publishKey namespaceName))) = first :: rest := by
    rw [encodeBase64, Base64.decode_encode, hkey]
  simp [publishConfig, syncPost, Etcd.put, publishRequest, Json.getString, Json.find, hwritten]

/-- A configuration whose publication succeeded is not fetched again, nor is that of another namespace:
the server answers, and the source says that there is none. -/
theorem fetchConfig_after_publish (endpoints : QString) (config : Json Double) :
    let published := publishConfig lib .answered etcd namespaceName endpoints config
    published.1 = .ok () ∧
      fetchConfig lib .answered published.2 namespaceName =
        .error ⟨.notFound, "Etcd config not found: " ++ String.ofList namespaceName⟩ ∧
      fetchConfig lib .answered published.2 namespaceName ≠ .ok config ∧
      ∀ other later found, fetchConfig lib later published.2 other ≠ .ok found := by
  intro published
  exact ⟨publishConfig_answered lib etcd namespaceName endpoints config,
    fetchConfig_answered lib published.2 namespaceName,
    fetchConfig_ne_ok lib _ published.2 namespaceName config,
    fun other later found => fetchConfig_ne_ok lib later published.2 other found⟩

/-- A library that knows the empty object. -/
def emptyObjectLibrary : JsonLibrary Unit (List UInt8) where
  dump _ := "\x7b\x7d".toList
  serializePretty _ := [0x7B, 0x7D]
  parse text := if text = [0x7B, 0x7D] then .ok (.object []) else .error ⟨.deserializationError, ""⟩

theorem fetchConfig_published_app :
    (publishConfig emptyObjectLibrary .answered {} "app".toList "http://127.0.0.1:2379".toList
        (.object [])).1 = .ok () ∧
      fetchConfig emptyObjectLibrary .answered
        (publishConfig emptyObjectLibrary .answered {} "app".toList "http://127.0.0.1:2379".toList
          (.object [])).2 "app".toList ≠ .ok (.object []) :=
  ⟨publishConfig_answered _ _ _ _ _, fetchConfig_ne_ok _ _ _ _ _⟩

end EtcdConfigSource

end SoulCoreKit.Configuration
