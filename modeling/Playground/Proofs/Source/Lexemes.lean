import Playground.Source.Lexeme
import Playground.Source.Semicolon

/-!
# Lexemes end inside of the source

Every function that measures a lexeme answers with a number of characters that
are there. So a reader that passes over as many stays inside of the source, and
positions that it remembers are places in it.

The measures that begin in the middle of a lexeme count what was passed before,
and so the bounds on them count it as well.
-/

namespace Playground.Source

variable {source rest : List Char} {n k fuel : Nat}

theorem takeWhile_length_le (p : Char → Bool) (source : List Char) :
    (source.takeWhile p).length ≤ source.length :=
  (List.takeWhile_prefix p).length_le

theorem lt_length_of_head?_drop {c : Char} (h : (source.drop n).head? = some c) :
    n < source.length := by
  rw [List.head?_drop] at h
  exact (List.getElem?_eq_some_iff.mp h).1

/-! ## Blanks and comments -/

theorem blockCommentFrom_le (h : blockCommentFrom n source = some k) : k ≤ n + source.length := by
  fun_induction blockCommentFrom n source with
  | case1 => cases h
  | case2 =>
      cases h
      simp only [List.length_cons]
      omega
  | case3 n c rest _ ih =>
      have := ih h
      rw [List.length_cons]
      omega

theorem comment?_le (h : comment? source = some k) : k ≤ source.length := by
  unfold comment? at h
  split at h
  · next rest =>
      cases h
      have := takeWhile_length_le (fun c => !isLineEnd c) rest
      simp only [List.length_cons]
      omega
  · next rest =>
      have := blockCommentFrom_le h
      simp only [List.length_cons]
      omega
  · cases h

theorem markupComment?_le (h : markupComment? source = some k) : k ≤ source.length := by
  unfold markupComment? at h
  split at h
  · next rest =>
      cases h
      have := takeWhile_length_le (fun c => !(c == '\n' || c == '\u2028' || c == '\u2029')) rest
      simp only [List.length_cons]
      omega
  · next rest =>
      cases h
      have := takeWhile_length_le (fun c => !(c == '\n' || c == '\u2028' || c == '\u2029')) rest
      simp only [List.length_cons]
      omega
  · cases h

theorem triviaFrom_le (fuel n : Nat) (source : List Char) :
    triviaFrom fuel n source ≤ n + source.length := by
  induction fuel generalizing n source with
  | zero => exact Nat.le_add_right _ _
  | succ fuel ih =>
      unfold triviaFrom
      split
      · exact Nat.le_add_right _ _
      · next c rest =>
          split
          · have := ih (n + 1) rest
            rw [List.length_cons]
            omega
          · split
            · next k hk =>
                have := ih (n + k) ((c :: rest).drop k)
                have := comment?_le hk
                rw [List.length_drop] at *
                omega
            · exact Nat.le_add_right _ _

theorem triviaLength_le (source : List Char) : triviaLength source ≤ source.length :=
  Nat.le_trans (triviaFrom_le _ 0 source) (Nat.le_of_eq (Nat.zero_add _))

/-! ## Words and numerals -/

theorem wordLength_le (source : List Char) : wordLength source ≤ source.length := by
  have all (skip : Nat) (atStart : Bool) : wordFrom skip atStart source ≤ source.length := by
    induction source generalizing skip atStart with
    | nil => exact Nat.le_refl 0
    | cons c rest ih =>
        rw [List.length_cons]
        unfold wordFrom
        cases skip with
        | succ k =>
            have := ih k false
            simp only []
            omega
        | zero =>
            simp only []
            split
            · split
              · next k _ =>
                  have := ih k false
                  omega
              · exact Nat.zero_le _
            · split
              · have := ih 0 false
                omega
              · exact Nat.zero_le _
  exact all 0 true

theorem digitsLength_le (digit : Char → Bool) (source : List Char) :
    digitsLength digit source ≤ source.length := by
  fun_induction digitsLength digit source with
  | case1 => exact Nat.le_refl 0
  | case2 c rest _ ih =>
      rw [List.length_cons]
      omega
  | case3 c _ d more _ ih =>
      simp only [List.length_cons]
      omega
  | case4 | case5 | case6 => exact Nat.zero_le _

theorem digitRun_le (digit : Char → Bool) (source : List Char) :
    digitRun digit source ≤ source.length := by
  unfold digitRun
  split
  · split
    · exact digitsLength_le digit _
    · exact Nat.zero_le _
  · exact Nat.le_refl 0

theorem exponentLength_le (source : List Char) : exponentLength source ≤ source.length := by
  have digits (rest : List Char) : digitRun isDigit rest ≤ rest.length := digitRun_le isDigit rest
  unfold exponentLength
  split
  · next c rest =>
      rw [List.length_cons]
      split
      · cases rest with
        | nil => simp [digitRun]
        | cons s more =>
            have := digits more
            have := digits (s :: more)
            rw [List.length_cons] at *
            simp only []
            split <;> simp only [] <;> split <;> omega
      · exact Nat.zero_le _
  · exact Nat.le_refl 0

theorem number?_le (h : number? source = some k) : k ≤ source.length := by
  have suffixed {n : Nat} (hn : n ≤ source.length) :
      (if (source.drop n).head? = some 'n' then n + 1 else n) ≤ source.length := by
    split
    · next hs => exact lt_length_of_head?_drop hs
    · exact hn
  have radix {digit : Char → Bool} {a b : Char} {rest : List Char} (hs : source = a :: b :: rest)
      (h : (if digitRun digit rest = 0 then some 1 else
        some (if (source.drop (digitRun digit rest + 2)).head? = some 'n' then
          digitRun digit rest + 2 + 1 else digitRun digit rest + 2)) = some k) :
      k ≤ source.length := by
    have hle := digitRun_le digit rest
    have hlen : source.length = rest.length + 2 := by rw [hs]; rfl
    split at h
    · cases h
      omega
    · cases h
      exact suffixed (by omega)
  unfold number? at h
  simp only [] at h
  split at h
  · exact radix rfl h
  · exact radix rfl h
  · exact radix rfl h
  · exact radix rfl h
  · exact radix rfl h
  · exact radix rfl h
  · next rest =>
      split at h
      · cases h
      · cases h
        have := digitRun_le isDigit rest
        have := exponentLength_le (rest.drop (digitRun isDigit rest))
        rw [List.length_drop] at this
        rw [List.length_cons]
        omega
  · have hn := digitRun_le isDigit source
    split at h
    · cases h
    · split at h
      · next rest hd =>
          cases h
          have hlen := congrArg List.length hd
          rw [List.length_drop, List.length_cons] at hlen
          have := digitRun_le isDigit rest
          have := exponentLength_le (rest.drop (digitRun isDigit rest))
          rw [List.length_drop] at this
          omega
      · split at h
        · cases h
          exact suffixed hn
        · cases h
          have := exponentLength_le (source.drop (digitRun isDigit source))
          rw [List.length_drop] at this
          omega

/-! ## Strings, templates and regular expressions -/

theorem unicodeEscape?_le (h : unicodeEscape? source = some k) : k ≤ source.length := by
  unfold unicodeEscape? at h
  split at h
  · next rest =>
      simp only [] at h
      split at h
      · next hd =>
          cases h
          have := lt_length_of_head?_drop hd.2
          simp only [List.length_cons]
          omega
      · cases h
  · split at h
    · cases h
      simp only [List.length_cons]
      omega
    · cases h
  · cases h

theorem escape?_le (h : escape? source = some k) : k ≤ source.length := by
  unfold escape? at h
  split at h
  · cases h
  · split at h
    · cases h
      simp only [List.length_cons]
      omega
    · cases h
  · cases h
  · exact unicodeEscape?_le h
  · cases h
    simp only [List.length_cons]
    omega
  · next c rest _ _ _ _ =>
      have := takeWhile_length_le isOctalDigit (rest.take 2)
      rw [List.length_take] at this
      split at h
      all_goals
        cases h
        rw [List.length_cons]
        omega

theorem stringFrom_bounds {quote : Char} (h : stringFrom quote fuel n source = some k) :
    n < k ∧ k ≤ n + source.length := by
  induction fuel generalizing n source with
  | zero => cases h
  | succ fuel ih =>
      cases source with
      | nil => cases h
      | cons c rest =>
          unfold stringFrom at h
          simp only [] at h
          split at h
          · cases h
            rw [List.length_cons]
            omega
          · split at h
            · split at h
              · next e he =>
                  have := ih h
                  have := escape?_le he
                  rw [List.length_drop] at *
                  rw [List.length_cons]
                  omega
              · cases h
            · split at h
              · split at h
                · next hq =>
                    cases h
                    have := lt_length_of_head?_drop hq
                    omega
                · cases h
              · have := ih h
                rw [List.length_cons]
                omega

theorem string?_bounds (h : string? source = some k) : 2 ≤ k ∧ k ≤ source.length := by
  unfold string? at h
  split at h
  · next rest =>
      have := stringFrom_bounds h
      rw [List.length_cons]
      omega
  · next rest =>
      have := stringFrom_bounds h
      rw [List.length_cons]
      omega
  · cases h

theorem templateRun_le (n : Nat) (source : List Char) :
    templateRun n source ≤ n + source.length := by
  fun_induction templateRun n source with
  | case1 => exact Nat.le_refl _
  | case2 => exact Nat.le_add_right _ _
  | case3 => exact Nat.le_add_right _ _
  | case4 n c rest _ _ ih =>
      rw [List.length_cons]
      omega

theorem regexFrom_le {inClass escaped : Bool} (h : regexFrom inClass escaped n source = some k) :
    k ≤ n + source.length := by
  induction source generalizing inClass escaped n with
  | nil => cases h
  | cons c rest ih =>
      rw [List.length_cons]
      have flags := takeWhile_length_le (fun d => 'a' ≤ d && d ≤ 'z') rest
      have later {inClass escaped : Bool} (h : regexFrom inClass escaped (n + 1) rest = some k) :
          k ≤ n + (rest.length + 1) := by
        have := ih h
        omega
      unfold regexFrom at h
      split at h
      · cases h
      · split at h
        · exact later h
        · split at h
          · exact later h
          · split at h
            · exact later h
            · split at h
              · split at h
                · cases h
                · cases h
                  omega
              · exact later h

theorem regex?_le (h : regex? source = some k) : k ≤ source.length := by
  unfold regex? at h
  split at h
  · have := regexFrom_le h
    rw [List.length_cons]
    omega
  · cases h

/-! ## Missing semicolons -/

theorem missingSemicolon?_le {ending : Ending}
    (h : missingSemicolon? ending fuel n source = some k) : k ≤ n + source.length := by
  induction fuel generalizing n source with
  | zero => cases h
  | succ fuel ih =>
      unfold missingSemicolon? at h
      split at h
      · cases h
      · split at h
        · cases h
          exact Nat.le_add_right _ _
        · simp only [] at h
          split at h
          · next j hj =>
              have := ih h
              have := comment?_le hj
              have := takeWhile_length_le isBlank source
              rw [List.length_drop] at *
              omega
          · cases h

end Playground.Source
