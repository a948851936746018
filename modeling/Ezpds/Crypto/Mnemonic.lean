import Ezpds.Crypto.CryptoError
import Ezpds.Library.Except
import Ezpds.Library.FixedDigits
import Ezpds.Library.Lowercase
import Ezpds.Library.Text
import Mathlib.Data.List.Nodup

/-!
# Bytes as words

Every byte is written as one of 256 words. A phrase is read word by word, whatever the
whitespace between the words and their case.

* `nodup_WORDLIST`: no word stands for two bytes.
* `wordsToBytes_words`: bytes are read back from their words.
-/

namespace Ezpds.Crypto

open Library

def WORDLIST : List String :=
  ["able", "acid", "aged", "army", "atom", "aunt", "axis", "baby", "back", "bake", "bald",
   "ball", "band", "bank", "barn", "base", "bath", "bead", "beam", "bean", "bear", "beat",
   "bell", "belt", "bird", "bite", "blue", "boat", "body", "bold", "bone", "book", "boot",
   "born", "boss", "both", "bowl", "cage", "cake", "calm", "camp", "cane", "card", "care",
   "cart", "cash", "cave", "cell", "chef", "chin", "city", "clay", "club", "coal", "coat",
   "code", "coin", "cold", "colt", "cook", "cool", "cord", "corn", "cost", "crab", "crew",
   "crop", "cube", "cure", "dark", "dawn", "deal", "deer", "desk", "dime", "dirt", "dish",
   "dive", "dock", "doll", "dome", "door", "dove", "drum", "duck", "dune", "dust", "duty",
   "earn", "east", "easy", "edge", "envy", "epic", "even", "face", "fact", "fade", "fair",
   "fall", "farm", "fast", "fate", "fawn", "fear", "feed", "felt", "fern", "film", "fire",
   "fish", "five", "flag", "flap", "flat", "flax", "fled", "flew", "flip", "flow", "foam",
   "foil", "fold", "font", "food", "foot", "ford", "fork", "form", "fort", "four", "frog",
   "fuel", "full", "fund", "fury", "gain", "gala", "game", "gate", "gaze", "gear", "gems",
   "gift", "girl", "give", "glad", "glow", "glue", "goal", "goat", "gold", "golf", "gone",
   "good", "gown", "grab", "gray", "grew", "grid", "grim", "grip", "grow", "gulf", "hail",
   "hair", "half", "hall", "hand", "hang", "harp", "hawk", "haze", "head", "heal", "heap",
   "heat", "herb", "herd", "hero", "hide", "hill", "hint", "hive", "hold", "hole", "holy",
   "home", "hood", "hoof", "hook", "hope", "horn", "host", "hour", "hunt", "hurl", "icon",
   "idea", "iris", "iron", "item", "jade", "jail", "jazz", "jean", "joke", "jolt", "july",
   "jump", "junk", "jury", "keel", "keen", "kelp", "kilt", "king", "kite", "knee", "knot",
   "lace", "lake", "lamb", "lamp", "land", "lane", "lark", "lava", "lawn", "lead", "leaf",
   "leak", "lean", "leap", "left", "lend", "lens", "lily", "lime", "line", "link", "lion",
   "list", "load", "loaf", "loan", "lock", "loft", "logo", "lone", "long", "look", "loop",
   "lord", "lose", "loud"]

theorem length_WORDLIST : WORDLIST.length = 256 := by decide +kernel

def wordOf (b : UInt8) : String :=
  WORDLIST.get ⟨b.toNat, by rw [length_WORDLIST]; exact b.toNat_lt⟩

def bytesToWords (bytes : List UInt8) : String :=
  " ".intercalate (bytes.map wordOf)

/-- `debug` is how a text is quoted in a message. -/
def wordsToBytes (debug : String → String) (phrase : String) : Except CryptoError (List UInt8) :=
  (splitWhitespace phrase).mapM fun token =>
    match WORDLIST.idxOf? (String.ofList (toAsciiLowercase token)) with
    | some i => .ok (UInt8.ofNat i)
    | none => .error (.shareFormat ("unknown mnemonic word: " ++ debug (String.ofList token)))

/-! ## The list -/

theorem word_letters : ∀ word ∈ WORDLIST, word.toList ≠ [] ∧
    ∀ c ∈ word.toList, 97 ≤ c.toNat ∧ c.toNat ≤ 122 := by
  have hAll : (WORDLIST.all fun word => !word.toList.isEmpty &&
      word.toList.all fun c => 97 ≤ c.toNat && c.toNat ≤ 122) = true := by
    decide +kernel
  intro word hMem
  have hWord := List.all_eq_true.mp hAll word hMem
  simpa using hWord

/-- A word as a number, which orders the words of one length as they are spelt. -/
def wordNumber (word : String) : Nat :=
  digitsValue 128 (word.toList.map Char.toNat)

/-- The list is in alphabetical order. -/
theorem nodup_WORDLIST : WORDLIST.Nodup := by
  have hChain : (WORDLIST.map wordNumber).IsChain (· < ·) := by decide +kernel
  have hSorted := List.isChain_iff_pairwise.mp hChain
  exact List.Nodup.of_map wordNumber (hSorted.imp ne_of_lt)

theorem idxOf?_wordOf (b : UInt8) : WORDLIST.idxOf? (wordOf b) = some b.toNat := by
  have hLt : b.toNat < WORDLIST.length := by
    rw [length_WORDLIST]
    exact b.toNat_lt
  apply List.idxOf?_eq_some_iff.mpr
  refine ⟨hLt, rfl, ?_⟩
  intro j hj hEq
  have hSame : j = b.toNat := (List.Nodup.getElem_inj_iff nodup_WORDLIST).mp hEq
  omega

theorem wordOf_letters (b : UInt8) : (wordOf b).toList ≠ [] ∧
    ∀ c ∈ (wordOf b).toList, 97 ≤ c.toNat ∧ c.toNat ≤ 122 :=
  word_letters _ (List.get_mem _ _)

/-! ## Reading what was written -/

theorem toAsciiLowercase_wordOf (b : UInt8) :
    toAsciiLowercase (wordOf b).toList = (wordOf b).toList := by
  have hLower : ∀ c : Char, 97 ≤ c.toNat → c.toLower = c := by
    intro c hc
    refine dif_neg fun hUpper => ?_
    have hLe : c.val.toNat ≤ 90 := hUpper.2
    have hVal : c.toNat = c.val.toNat := rfl
    omega
  rw [toAsciiLowercase, List.map_congr_left fun c hc => hLower c ((wordOf_letters b).2 c hc).1,
    List.map_id']

theorem splitWhitespace_bytesToWords (bytes : List UInt8) :
    splitWhitespace (bytesToWords bytes) = bytes.map fun b => (wordOf b).toList := by
  have hWords : ∀ word ∈ bytes.map wordOf,
      word.toList ≠ [] ∧ ∀ c ∈ word.toList, isWhitespace c = false := by
    intro word hWord
    obtain ⟨b, _, rfl⟩ := List.mem_map.mp hWord
    refine ⟨(wordOf_letters b).1, ?_⟩
    intro c hc
    obtain ⟨hLow, hHigh⟩ := (wordOf_letters b).2 c hc
    simp only [isWhitespace]
    simp
    omega
  rw [bytesToWords, splitWhitespace_intercalate hWords, List.map_map]
  rfl

/-- A phrase of the words of some bytes, whatever their case, is read as the bytes. -/
theorem wordsToBytes_words (debug : String → String) {phrase : String} {bytes : List UInt8}
    (h : (splitWhitespace phrase).map toAsciiLowercase =
      (splitWhitespace (bytesToWords bytes)).map toAsciiLowercase) :
    wordsToBytes debug phrase = .ok bytes := by
  rw [splitWhitespace_bytesToWords, List.map_map] at h
  have hEq : List.Forall₂ Eq ((splitWhitespace phrase).map toAsciiLowercase)
      (bytes.map (toAsciiLowercase ∘ fun b => (wordOf b).toList)) := by
    rw [h, List.forall₂_eq_eq_eq]
  have hTokens := List.forall₂_map_left_iff.mp (List.forall₂_map_right_iff.mp hEq)
  rw [wordsToBytes, mapM_ok]
  apply hTokens.imp
  intro token b hToken
  rw [hToken, Function.comp, toAsciiLowercase_wordOf, String.ofList_toList, idxOf?_wordOf]
  simp

end Ezpds.Crypto
