import Tqos.Ltm.StatusLine

/-!
# Header lines

Header lines as a server writes them, `key: value`, and what `xiaocilang_give_kv` makes of them. It
skips the blanks in front of a value up to the end of the text, so behind an empty value it skips
the end of the line as well and takes the next line for the value. Only behind the last line there
is nothing that it could take.

## Main results

* `giveKv_line`, `giveKv_end` — one line, with a value or with nothing behind it
* `length_giveKv_le` — no more lines are stored than there are
* `parsesBack_iff` — which header lines it reads
-/

namespace Tqos

namespace Ltm

/-- A header that can be written: the key is a word without `:`, and the value is the rest of a
line. -/
structure Field (f : Text × Text) : Prop where
  key_ne : f.1 ≠ []
  key_word : ∀ c ∈ f.1, isspace c = false ∧ c ≠ 58
  val_line : ∀ c ∈ f.2, c ≠ 10 ∧ c ≠ 13
  val_start : ∀ c, f.2.head? = some c → isspace c = false

/-- Header lines, and the empty line behind them. -/
def headerBlock (fs : List (Text × Text)) : Text :=
  (fs.flatMap fun f => HttpParts.fieldLine f ++ crlf) ++ crlf

/-- The key and the value of a line that was stored. -/
def Keyval.texts (t : Text) (l : Keyval) : Text × Text := (l.key.text t, l.val.text t)

/-- What is asked: the lines are stored in their order, and the one with the length is found. -/
structure ParsesBack (n : ℕ) (fs : List (Text × Text)) : Prop where
  lines : (xiaocilangGiveKv (headerBlock fs) n 0).map (Keyval.texts (headerBlock fs)) = fs
  finds : lit "Content-Length" ∈ fs.map Prod.fst →
    ∃ val, xiaocilangNeedKv (headerBlock fs) (xiaocilangGiveKv (headerBlock fs) n 0)
        (lit "Content-Length") = some val ∧
      ∃ f ∈ fs, f.1.map tolower = (lit "Content-Length").map tolower ∧
        f.2 = val.text (headerBlock fs)

/-- Nothing but the last value is empty, and an `uint` counts the bytes of every key and value. -/
def LineByLine (fs : List (Text × Text)) : Prop :=
  (∀ f ∈ fs.dropLast, f.2 ≠ []) ∧ ∀ f ∈ fs, f.1.length < 2 ^ 32 ∧ f.2.length < 2 ^ 32

/-- What an `uint` counts of a text. -/
def counted (w : Text) : Text := w.take (w.length % 2 ^ 32)

theorem counted_eq_self_iff {w : Text} : counted w = w ↔ w.length < 2 ^ 32 := by
  rw [counted, List.take_eq_self_iff]
  exact ⟨fun hle => hle.trans_lt (Nat.mod_lt _ (by decide)), fun hlt => (Nat.mod_eq_of_lt hlt).ge⟩

section Lines

variable {t lead k blank w rest : Text} {start n : ℕ} {f : Text × Text} {fs : List (Text × Text)}

theorem headerBlock_nil : headerBlock [] = crlf := rfl

theorem headerBlock_cons (f : Text × Text) (fs : List (Text × Text)) :
    headerBlock (f :: fs) = f.1 ++ 58 :: ([32] ++ f.2 ++ (crlf ++ headerBlock fs)) := by
  have hcolon : lit ": " = [58, 32] := rfl
  rw [headerBlock, List.flatMap_cons, HttpParts.fieldLine, hcolon, headerBlock]
  simp

/-- A pointer moves behind the first part. -/
theorem moveWhile_of_split {p : UInt8 → Bool} {a b : Text} (h : t.drop start = a ++ b)
    (ha : ∀ c ∈ a, p c = true) (hb : ∀ c, b.head? = some c → p c = false) :
    moveWhile p t start = start + a.length := by
  have hstop : b.takeWhile p = [] := by
    cases b with
    | nil => rfl
    | cons c b => exact List.takeWhile_cons_of_neg (by rw [hb c rfl]; exact Bool.false_ne_true)
  rw [moveWhile, h, List.takeWhile_append_of_pos ha, hstop, List.append_nil]

theorem drop_of_split {a b : Text} (h : t.drop start = a ++ b) : t.drop (start + a.length) = b := by
  rw [← List.drop_drop, h, List.drop_left]

/-- The key, behind the end of the line before. -/
theorem key_of_split (h : t.drop start = lead ++ (k ++ 58 :: rest))
    (hlead : ∀ c ∈ lead, isspace c = true ∧ c ≠ 58)
    (hword : ∀ c ∈ k, isspace c = false ∧ c ≠ 58) :
    (t.drop start).idxOf? 58 = some (lead.length + k.length) ∧
      haStripSpace (t.take (start + (lead.length + k.length))) start = start + lead.length ∧
      haGrabText (t.take (start + (lead.length + k.length))) (start + lead.length) =
        start + lead.length + k.length := by
  have hcolon : (58 : UInt8) ∉ lead ++ k := by
    rw [List.mem_append]
    exact not_or.mpr ⟨fun hmem => (hlead _ hmem).2 rfl, fun hmem => (hword _ hmem).2 rfl⟩
  have hcut : (t.take (start + (lead.length + k.length))).drop start = lead ++ k := by
    rw [List.drop_take, Nat.add_sub_cancel_left, h, ← List.append_assoc,
      List.take_left' List.length_append]
  refine ⟨?_, moveWhile_of_split hcut (fun c hc => (hlead c hc).1) fun c hc => ?_, ?_⟩
  · rw [h, ← List.append_assoc, idxOf?_first hcolon, List.length_append]
  · exact (hword c (List.mem_of_mem_head? hc)).1
  · have hkey : (t.take (start + (lead.length + k.length))).drop (start + lead.length) =
        k ++ [] := by
      rw [drop_of_split hcut, List.append_nil]
    exact moveWhile_of_split hkey (fun c hc => by rw [(hword c hc).1]; rfl)
      fun _ hc => absurd hc (by simp)

/-- The key that is stored, and where the blanks behind the separator begin. -/
theorem giveKv_key (h : t.drop start = lead ++ (k ++ 58 :: rest))
    (hlead : ∀ c ∈ lead, isspace c = true ∧ c ≠ 58)
    (hword : ∀ c ∈ k, isspace c = false ∧ c ≠ 58) (n : ℕ) :
    ∃ behind key, t.drop behind = rest ∧ key.text t = counted k ∧
      ∀ val stop next, haStripSpace t behind = val → haSkipNewline t val = stop →
        (if t[stop - 1]? = some 13 then stop - 1 else stop) = next →
          xiaocilangGiveKv t (n + 1) start =
            ⟨key, ⟨val, (2 ^ 32 + next - val) % 2 ^ 32⟩⟩ :: xiaocilangGiveKv t n next := by
  obtain ⟨hsep, hkey, hkeyEnd⟩ := key_of_split h hlead hword
  refine ⟨start + (lead.length + k.length) + 1, ⟨start + lead.length, k.length % 2 ^ 32⟩, ?_, ?_,
    ?_⟩
  · have hsplit : t.drop start = (lead ++ k) ++ 58 :: rest := by rw [h, List.append_assoc]
    have hcolon := drop_of_split hsplit
    rw [List.length_append] at hcolon
    rw [← List.drop_drop, hcolon]
    rfl
  · rw [Cstr.text, drop_of_split h]
    exact List.take_append_of_le_length (Nat.mod_le _ _)
  · rintro _ _ _ rfl rfl rfl
    rw [xiaocilangGiveKv, hsep]
    show (⟨⟨haStripSpace (t.take (start + (lead.length + k.length))) start,
      (haGrabText (t.take (start + (lead.length + k.length)))
        (haStripSpace (t.take (start + (lead.length + k.length))) start) -
          haStripSpace (t.take (start + (lead.length + k.length))) start) % 2 ^ 32⟩, _⟩ :
            Keyval) :: _ = _
    rw [hkey, hkeyEnd, Nat.add_sub_cancel_left]

/-- **A line**: blanks, a text that they do not reach into, and the end of the line. -/
theorem giveKv_line (h : t.drop start = lead ++ (k ++ 58 :: (blank ++ w ++ (crlf ++ rest))))
    (hlead : ∀ c ∈ lead, isspace c = true ∧ c ≠ 58)
    (hword : ∀ c ∈ k, isspace c = false ∧ c ≠ 58) (hblank : ∀ c ∈ blank, isspace c = true)
    (hw : w ≠ []) (hstart : ∀ c, w.head? = some c → isspace c = false) (hline : ∀ c ∈ w, c ≠ 10)
    (n : ℕ) :
    ∃ l next, xiaocilangGiveKv t (n + 1) start = l :: xiaocilangGiveKv t n next ∧
      l.texts t = (counted k, counted w) ∧ t.drop next = crlf ++ rest := by
  obtain ⟨behind, key, hbehind, hkey, hgive⟩ := giveKv_key h hlead hword n
  rw [List.append_assoc] at hbehind
  have hval : haStripSpace t behind = behind + blank.length := by
    refine moveWhile_of_split hbehind hblank fun c hc => hstart c ?_
    rwa [List.head?_append_of_ne_nil _ hw] at hc
  have hw' := drop_of_split hbehind
  have hnext : haSkipNewline t (behind + blank.length) = behind + blank.length + w.length + 1 := by
    have hsplit : t.drop (behind + blank.length) = (w ++ [13]) ++ 10 :: rest := by
      rw [hw', List.append_assoc]
      rfl
    have hmove := moveWhile_of_split (p := (· ≠ 10)) hsplit (fun c hc => ?_) fun c hc => ?_
    · rw [List.length_append] at hmove
      exact hmove
    · rcases List.mem_append.mp hc with hc | hc
      · exact decide_eq_true (hline c hc)
      · rw [List.mem_singleton.mp hc]
        rfl
    · rw [← Option.some.inj hc]
      rfl
  have hcr := drop_of_split hw'
  have hback : t[behind + blank.length + w.length]? = some 13 := by
    rw [← Nat.add_zero (behind + blank.length + w.length), ← List.getElem?_drop, hcr]
    rfl
  have hlen : (2 ^ 32 + (behind + blank.length + w.length) - (behind + blank.length)) % 2 ^ 32 =
      w.length % 2 ^ 32 := by
    rw [show 2 ^ 32 + (behind + blank.length + w.length) - (behind + blank.length) =
      2 ^ 32 + w.length by omega, Nat.add_mod_left]
  have hgive' := hgive _ _ (behind + blank.length + w.length) hval hnext
    (by rw [Nat.add_sub_cancel, if_pos hback])
  rw [hlen] at hgive'
  refine ⟨_, _, hgive', Prod.ext hkey ?_, hcr⟩
  show Cstr.text t ⟨behind + blank.length, w.length % 2 ^ 32⟩ = counted w
  rw [Cstr.text, hw']
  exact List.take_append_of_le_length (Nat.mod_le _ _)

/-- **The last line without a value**: nothing is behind it. -/
theorem giveKv_end (h : t.drop start = lead ++ (k ++ 58 :: (blank ++ [10])))
    (hlead : ∀ c ∈ lead, isspace c = true ∧ c ≠ 58)
    (hword : ∀ c ∈ k, isspace c = false ∧ c ≠ 58) (hblank : ∀ c ∈ blank, isspace c = true)
    (n : ℕ) : ∃ l, xiaocilangGiveKv t (n + 1) start = [l] ∧ l.texts t = (counted k, []) := by
  obtain ⟨behind, key, hbehind, hkey, hgive⟩ := giveKv_key h hlead hword n
  have hall : ∀ c ∈ blank ++ [10], isspace c = true := by
    intro c hc
    rcases List.mem_append.mp hc with hc | hc
    · exact hblank c hc
    · rw [List.mem_singleton.mp hc]
      rfl
  have hsplit : t.drop behind = (blank ++ [10]) ++ [] := by rw [hbehind, List.append_nil]
  have hval : haStripSpace t behind = behind + (blank ++ [10]).length :=
    moveWhile_of_split hsplit hall fun _ hc => absurd hc (by simp)
  have hrest := drop_of_split hsplit
  have hnext : haSkipNewline t (behind + (blank ++ [10]).length) =
      behind + (blank ++ [10]).length := by
    rw [haSkipNewline, moveWhile, hrest]
    rfl
  have hlast : t[behind + (blank ++ [10]).length - 1]? = some 10 := by
    rw [List.length_append, ← Nat.add_assoc, List.length_singleton, Nat.add_sub_cancel,
      ← List.getElem?_drop, hbehind, List.getElem?_append_right le_rfl, Nat.sub_self]
    rfl
  have hgive' := hgive _ _ (behind + (blank ++ [10]).length) hval hnext
    (by rw [hlast, if_neg (by decide)])
  have hnone : xiaocilangGiveKv t n (behind + (blank ++ [10]).length) = [] := by
    cases n with
    | zero => rfl
    | succ n =>
      rw [xiaocilangGiveKv, hrest]
      rfl
  rw [hnone, Nat.add_sub_cancel, Nat.mod_self] at hgive'
  refine ⟨_, hgive', Prod.ext hkey ?_⟩
  show (t.drop (behind + (blank ++ [10]).length)).take 0 = []
  exact List.take_zero

/-- What is behind the value of the line before: nothing, or the end of that line. -/
def Lead (lead : Text) : Prop := lead = [] ∨ lead = crlf

theorem Lead.spaces (h : Lead lead) : ∀ c ∈ lead, isspace c = true ∧ c ≠ 58 := by
  rcases h with rfl | rfl
  · exact fun c hc => absurd hc List.not_mem_nil
  · intro c hc
    rcases List.mem_cons.mp hc with rfl | hc
    · exact ⟨rfl, by decide⟩
    · rw [List.mem_singleton.mp hc]
      exact ⟨rfl, by decide⟩

/-- A header with a value. -/
theorem Field.giveKv (hf : Field f) (hlead : Lead lead) (hval : f.2 ≠ [])
    (h : t.drop start = lead ++ headerBlock (f :: fs)) (n : ℕ) :
    ∃ l next, xiaocilangGiveKv t (n + 1) start = l :: xiaocilangGiveKv t n next ∧
      l.texts t = (counted f.1, counted f.2) ∧ t.drop next = crlf ++ headerBlock fs := by
  rw [headerBlock_cons] at h
  exact giveKv_line h hlead.spaces hf.key_word (fun c hc => by rw [List.mem_singleton.mp hc]; rfl)
    hval hf.val_start (fun c hc => (hf.val_line c hc).1) n

/-- The last header, without a value. -/
theorem Field.giveKv_last (hf : Field f) (hlead : Lead lead) (hval : f.2 = [])
    (h : t.drop start = lead ++ headerBlock [f]) (n : ℕ) :
    ∃ l, xiaocilangGiveKv t (n + 1) start = [l] ∧ l.texts t = (counted f.1, f.2) := by
  rw [headerBlock_cons, hval] at h
  have hblank : ∀ c ∈ ([32, 13, 10, 13] : Text), isspace c = true := by
    have hall : ([32, 13, 10, 13] : Text).all isspace = true := rfl
    exact List.all_eq_true.mp hall
  obtain ⟨l, hgive, htexts⟩ := giveKv_end h hlead.spaces hf.key_word hblank n
  exact ⟨l, hgive, htexts.trans (Prod.ext rfl hval.symm)⟩

/-- A header without a value, and one behind it: that is taken, too. -/
theorem Field.giveKv_next {g : Text × Text} (hf : Field f) (hg : Field g) (hlead : Lead lead)
    (hval : f.2 = []) (h : t.drop start = lead ++ headerBlock (f :: g :: fs)) (n : ℕ) :
    ∃ l next, xiaocilangGiveKv t (n + 1) start = l :: xiaocilangGiveKv t n next ∧
      t.drop next = crlf ++ headerBlock fs := by
  have hline : headerBlock (f :: g :: fs) =
      f.1 ++ 58 :: (([32] ++ crlf) ++ HttpParts.fieldLine g ++ (crlf ++ headerBlock fs)) := by
    have hcolon : lit ": " = [58, 32] := rfl
    rw [headerBlock_cons, hval, headerBlock_cons, HttpParts.fieldLine, hcolon]
    simp
  rw [hline] at h
  have hne : HttpParts.fieldLine g ≠ [] := by
    rw [HttpParts.fieldLine]
    simp [hg.key_ne]
  have hstart : ∀ c, (HttpParts.fieldLine g).head? = some c → isspace c = false := by
    intro c hc
    rw [HttpParts.fieldLine, List.append_assoc, List.head?_append_of_ne_nil _ hg.key_ne] at hc
    exact (hg.key_word c (List.mem_of_mem_head? hc)).1
  have hplain : ∀ c ∈ HttpParts.fieldLine g, c ≠ 10 := by
    rintro c hc rfl
    rw [HttpParts.fieldLine, List.mem_append, List.mem_append] at hc
    rcases hc with (hc | hc) | hc
    · exact absurd (hg.key_word _ hc).1 (by decide)
    · exact absurd hc (by decide)
    · exact (hg.val_line _ hc).1 rfl
  have hblank : ∀ c ∈ ([32] ++ crlf : Text), isspace c = true := by
    have hall : ([32] ++ crlf : Text).all isspace = true := rfl
    exact List.all_eq_true.mp hall
  obtain ⟨l, next, hgive, -, hnext⟩ := giveKv_line h hlead.spaces hf.key_word hblank hne hstart
    hplain n
  exact ⟨l, next, hgive, hnext⟩

/-- Behind the last header. -/
theorem giveKv_none (hlead : Lead lead) (h : t.drop start = lead ++ headerBlock []) (n : ℕ) :
    xiaocilangGiveKv t n start = [] := by
  have hno : (t.drop start).idxOf? 58 = none := by
    rw [h, headerBlock_nil]
    rcases hlead with rfl | rfl <;> rfl
  cases n with
  | zero => rfl
  | succ n =>
    rw [xiaocilangGiveKv, hno]

/-- **No more lines are stored than there are.** -/
theorem length_giveKv_le (hfs : ∀ f ∈ fs, Field f) (hlead : Lead lead)
    (h : t.drop start = lead ++ headerBlock fs) (n : ℕ) :
    (xiaocilangGiveKv t n start).length ≤ fs.length := by
  induction hk : fs.length using Nat.strongRecOn generalizing fs lead start n with
  | _ k ih =>
    cases n with
    | zero => exact Nat.zero_le _
    | succ n =>
      cases fs with
      | nil =>
        rw [giveKv_none hlead h]
        exact Nat.zero_le _
      | cons f fs =>
        obtain ⟨hf, hfs⟩ := List.forall_mem_cons.mp hfs
        rw [List.length_cons] at hk
        by_cases hval : f.2 = []
        · cases fs with
          | nil =>
            obtain ⟨l, hgive, -⟩ := hf.giveKv_last hlead hval h n
            rw [hgive, ← hk]
            exact le_rfl
          | cons g fs =>
            obtain ⟨hg, hfs⟩ := List.forall_mem_cons.mp hfs
            rw [List.length_cons] at hk
            obtain ⟨l, next, hgive, hnext⟩ := hf.giveKv_next hg hlead hval h n
            have hle := ih fs.length (by omega) hfs (.inr rfl) hnext n rfl
            rw [hgive, List.length_cons]
            omega
        · obtain ⟨l, next, hgive, -, hnext⟩ := hf.giveKv hlead hval h n
          have hle := ih fs.length (by omega) hfs (.inr rfl) hnext n rfl
          rw [hgive, List.length_cons]
          omega

theorem lineByLine_cons (hval : f.2 ≠ []) :
    LineByLine (f :: fs) ↔ (f.1.length < 2 ^ 32 ∧ f.2.length < 2 ^ 32) ∧ LineByLine fs := by
  have hdrop : (∀ g ∈ (f :: fs).dropLast, g.2 ≠ []) ↔ ∀ g ∈ fs.dropLast, g.2 ≠ [] := by
    cases fs with
    | nil => exact Iff.rfl
    | cons g fs =>
      rw [List.dropLast_cons_cons, List.forall_mem_cons]
      exact and_iff_right hval
  rw [LineByLine, hdrop, List.forall_mem_cons, LineByLine]
  exact and_left_comm

/-- **The lines that are stored** are those that were written, exactly when nothing but the last
value is empty. -/
theorem texts_giveKv_iff (hfs : ∀ f ∈ fs, Field f) (hlead : Lead lead)
    (h : t.drop start = lead ++ headerBlock fs) (hn : fs.length ≤ n) :
    (xiaocilangGiveKv t n start).map (Keyval.texts t) = fs ↔ LineByLine fs := by
  induction fs generalizing lead start n with
  | nil =>
    rw [giveKv_none hlead h]
    exact iff_of_true rfl ⟨fun _ hf => absurd hf List.not_mem_nil,
      fun _ hf => absurd hf List.not_mem_nil⟩
  | cons f fs ih =>
    obtain ⟨m, rfl⟩ : ∃ m, n = m + 1 := ⟨n - 1, by rw [List.length_cons] at hn; omega⟩
    have hm : fs.length ≤ m := by
      rw [List.length_cons] at hn
      omega
    obtain ⟨hf, hfs⟩ := List.forall_mem_cons.mp hfs
    by_cases hval : f.2 = []
    · cases fs with
      | nil =>
        obtain ⟨l, hgive, htexts⟩ := hf.giveKv_last hlead hval h m
        have hlen : f.2.length < 2 ^ 32 := by
          rw [hval]
          decide
        rw [hgive, List.map_singleton, htexts, List.cons_eq_cons, and_iff_left rfl, Prod.ext_iff,
          and_iff_left rfl, counted_eq_self_iff, LineByLine, List.forall_mem_singleton,
          and_iff_left hlen]
        exact (and_iff_right fun _ hg => absurd hg List.not_mem_nil).symm
      | cons g fs =>
        -- One line is stored for the two of them.
        obtain ⟨hg, hfs⟩ := List.forall_mem_cons.mp hfs
        obtain ⟨l, next, hgive, hnext⟩ := hf.giveKv_next hg hlead hval h m
        refine iff_of_false (fun heq => ?_) fun hline => hline.1 f List.mem_cons_self hval
        have hlen := congrArg List.length heq
        have hle := length_giveKv_le hfs (.inr rfl) hnext m
        rw [List.length_map, hgive, List.length_cons, List.length_cons, List.length_cons] at hlen
        omega
    · obtain ⟨l, next, hgive, htexts, hnext⟩ := hf.giveKv hlead hval h m
      have hwhole : (counted f.1, counted f.2) = f ↔
          f.1.length < 2 ^ 32 ∧ f.2.length < 2 ^ 32 := by
        rw [Prod.ext_iff, counted_eq_self_iff, counted_eq_self_iff]
      rw [hgive, List.map_cons, htexts, lineByLine_cons hval, List.cons_eq_cons, hwhole,
        ih hfs (.inr rfl) hnext hm]

/-- A key is inside the text. -/
theorem length_key_of_mem_giveKv {l : Keyval} (hl : l ∈ xiaocilangGiveKv t n start) :
    (l.key.text t).length = l.key.len := by
  induction n generalizing start with
  | zero => exact absurd hl List.not_mem_nil
  | succ n ih =>
    rw [xiaocilangGiveKv] at hl
    cases hsep : (t.drop start).idxOf? 58 with
    | none =>
      rw [hsep] at hl
      exact absurd hl List.not_mem_nil
    | some i =>
      rw [hsep] at hl
      rcases List.mem_cons.mp hl with rfl | hl
      · have hi : i < (t.drop start).length := (List.idxOf?_eq_some_iff.mp hsep).1
        have hstart : start ≤ (t.take (start + i)).length := by
          rw [List.length_drop] at hi
          rw [List.length_take]
          omega
        have hkey := moveWhile_le (f := isspace) hstart
        have hkeyEnd := moveWhile_le (f := fun c => !isspace c) hkey
        rw [List.length_take] at hkeyEnd
        rw [Cstr.text, List.length_take, List.length_drop, Nat.min_eq_left]
        show (haGrabText (t.take (start + i)) (haStripSpace (t.take (start + i)) start) -
          haStripSpace (t.take (start + i)) start) % 2 ^ 32 ≤
            t.length - haStripSpace (t.take (start + i)) start
        exact (Nat.mod_le _ _).trans (Nat.sub_le_sub_right (hkeyEnd.trans (Nat.min_le_right _ _)) _)
      · exact ih hl

/-- A line whose key is the one that is looked for, in any case, is found. -/
theorem needKv_of_mem {lines : List Keyval} {key : Text} (hlines : lines.map (Keyval.texts t) = fs)
    (hlen : ∀ l ∈ lines, (l.key.text t).length = l.key.len) (hmem : key ∈ fs.map Prod.fst) :
    ∃ val, xiaocilangNeedKv t lines key = some val ∧
      ∃ f ∈ fs, f.1.map tolower = key.map tolower ∧ f.2 = val.text t := by
  obtain ⟨f, hf, rfl⟩ := List.mem_map.mp hmem
  rw [← hlines] at hf
  obtain ⟨l, hl, rfl⟩ := List.mem_map.mp hf
  have hmatch : haStrcmp t l.key (l.texts t).1 = true := by
    rw [haStrcmp, ← hlen l hl]
    simp [Keyval.texts]
  have hsome : (lines.find? fun l' => haStrcmp t l'.key (l.texts t).1).isSome = true :=
    List.find?_isSome.mpr ⟨l, hl, hmatch⟩
  obtain ⟨found, hfound⟩ := Option.isSome_iff_exists.mp hsome
  have hsame := List.find?_some hfound
  refine ⟨found.val, by rw [xiaocilangNeedKv, hfound]; rfl, found.texts t, ?_, ?_, rfl⟩
  · rw [← hlines]
    exact List.mem_map_of_mem (List.mem_of_find?_eq_some hfound)
  · rw [haStrcmp, Bool.and_eq_true] at hsame
    exact eq_of_beq hsame.2

/-- **Which header lines are read back**: those in which nothing but the last value is empty. -/
theorem parsesBack_iff (n : ℕ) (fs : List (Text × Text)) (hfs : ∀ f ∈ fs, Field f)
    (hn : fs.length ≤ n) : ParsesBack n fs ↔ LineByLine fs := by
  have hstart : (headerBlock fs).drop 0 = [] ++ headerBlock fs := rfl
  have hlines := texts_giveKv_iff hfs (.inl rfl) hstart hn
  refine ⟨fun h => hlines.mp h.lines, fun h => ⟨hlines.mpr h, fun hmem => ?_⟩⟩
  exact needKv_of_mem (hlines.mpr h) (fun _ hl => length_key_of_mem_giveKv hl) hmem

theorem field_of_all (hne : f.1 ≠ []) (hword : f.1.all (fun c => !isspace c && c != 58) = true)
    (hline : f.2.all (fun c => c != 10 && c != 13) = true)
    (hstart : f.2.head?.all (fun c => !isspace c) = true) : Field f where
  key_ne := hne
  key_word := fun c hc => by simpa using List.all_eq_true.mp hword c hc
  val_line := fun c hc => by simpa using List.all_eq_true.mp hline c hc
  val_start := fun c hc => by simpa [hc] using hstart

/-- A value with a colon, and the last header without one. -/
def plainLines : List (Text × Text) :=
  [(lit "Server", lit "a:b"), (lit "Content-Length", lit "5"), (lit "X", [])]

theorem parsesBack_plainLines : (∀ f ∈ plainLines, Field f) ∧ plainLines.length ≤ 16 ∧
    (ParsesBack 16 plainLines ↔ LineByLine plainLines) ∧ LineByLine plainLines := by
  have hfs : ∀ f ∈ plainLines, Field f := by
    rw [plainLines, List.forall_mem_cons, List.forall_mem_cons, List.forall_mem_singleton]
    exact ⟨field_of_all (by decide) rfl rfl rfl, field_of_all (by decide) rfl rfl rfl,
      field_of_all (by decide) rfl rfl rfl⟩
  refine ⟨hfs, by decide, parsesBack_iff 16 plainLines hfs (by decide), ?_, ?_⟩
  · rw [plainLines, List.dropLast_cons_cons, List.dropLast_cons_cons, List.forall_mem_cons]
    exact ⟨by decide, fun f hf => by rw [List.mem_singleton.mp hf]; decide⟩
  · rw [plainLines, List.forall_mem_cons, List.forall_mem_cons, List.forall_mem_singleton]
    decide

/-- A header without a value in front of the one with the length. -/
def emptyFirst : List (Text × Text) := [(lit "X", []), (lit "Content-Length", lit "5")]

/-- One line is stored, and its value is the line with the length. -/
theorem not_parsesBack_emptyFirst :
    (∀ f ∈ emptyFirst, Field f) ∧ emptyFirst.length ≤ 16 ∧ ¬ ParsesBack 16 emptyFirst := by
  refine ⟨?_, by decide, fun h => absurd h.lines (by decide)⟩
  rw [emptyFirst, List.forall_mem_cons, List.forall_mem_singleton]
  exact ⟨field_of_all (by decide) rfl rfl rfl, field_of_all (by decide) rfl rfl rfl⟩

end Lines

end Ltm

end Tqos
