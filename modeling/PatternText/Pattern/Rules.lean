import PatternText.Grammar.Basic

/-! The rules of patterns. A pattern is a row of factors or alternatives of such rows; a factor is a
character, a character class, a group, a reference or a computed value, with any number of multipliers
after it. Some rules share their beginnings, and the longest match decides between them; a negated
list also reads as a plain list that starts with `^`, so it is declared first. -/

namespace PatternText

/-- The productions of the pattern grammar in the order in which alternatives are preferred. -/
def patternRules : List (String × String) :=
  [ ("REGEX", "TERM"),
    ("REGEX", "ALTERNATIVES"),
    ("ALTERNATIVES", "TERM | REGEX"),
    ("TERM", "FACTOR TERM"),
    ("TERM", ""),
    ("FACTOR", "BASE MULTIPLIERS"),
    ("BASE", "CHAR"),
    ("BASE", "DOT"),
    ("BASE", "PARENS"),
    ("BASE", "BACKREF"),
    ("BASE", "SRCBACKREF_EXPR"),
    ("BASE", "NUMERIC_EXPR"),
    ("PARENS", "( REGEX )"),
    ("MULTIPLIERS", "MULTIPLIER MULTIPLIERS"),
    ("MULTIPLIERS", ""),
    ("MULTIPLIER", "ZERO_OR_MORE"),
    ("MULTIPLIER", "ZERO_OR_ONE"),
    ("MULTIPLIER", "ONE_OR_MORE"),
    ("MULTIPLIER", "NUMBER_OF"),
    ("MULTIPLIER", "NUMBER_OR_MORE_OF"),
    ("MULTIPLIER", "NUMBER_RANGE_OF"),
    ("ZERO_OR_MORE", "*"),
    ("ZERO_OR_ONE", "?"),
    ("ONE_OR_MORE", "+"),
    ("NUMBER_OF", "{ EXPRESSION }"),
    ("NUMBER_OR_MORE_OF", "{ EXPRESSION , }"),
    ("NUMBER_RANGE_OF", "{ EXPRESSION , EXPRESSION }"),
    ("DOT", "."),
    ("CHAR", "NON_META_CHAR"),
    ("CHAR", "ESC_META_CHAR"),
    ("CHAR", "DIGIT"),
    ("CHAR", "WHITESPACE"),
    ("CHAR", "NON_WHITESPACE"),
    ("CHAR", "DIGIT_ALIAS"),
    ("CHAR", "NON_DIGIT_ALIAS"),
    ("CHAR", "WORD_CHAR"),
    ("CHAR", "NON_WORD_CHAR"),
    ("CHAR", "EXCLUSIVE_CHAR_LIST"),
    ("CHAR", "INCLUSIVE_CHAR_LIST"),
    ("INCLUSIVE_CHAR_LIST", "[ CHAR_SPEC CHAR_SPECS ]"),
    ("EXCLUSIVE_CHAR_LIST", "[ ^ CHAR_SPEC CHAR_SPECS ]"),
    ("CHAR_SPEC", "CHAR_SPEC_CHAR"),
    ("CHAR_SPEC", "RANGE"),
    ("RANGE", "CHAR_SPEC_CHAR - CHAR_SPEC_CHAR"),
    ("CHAR_SPECS", "CHAR_SPEC CHAR_SPECS"),
    ("CHAR_SPECS", ""),
    ("CHAR_SPEC_CHAR", "NON_META_CHAR_SPEC"),
    ("CHAR_SPEC_CHAR", "ESC_META_CHAR_SPEC"),
    ("META_CHAR", "^${}[]().|*+?\\"),
    ("NON_META_CHAR", "~^${}[]().|*+?\\"),
    ("META_CHAR_SPEC", "]"),
    ("NON_META_CHAR_SPEC", "~]"),
    ("DIGIT", "1234567890"),
    ("DIGITS", "DIGIT DIGITS"),
    ("DIGITS", ""),
    ("NUMBER", "DIGIT DIGITS"),
    ("SRCBACKREF_EXPR", "{ { EXPRESSION OPT_BACKREF_MOD } }"),
    ("NUMERIC_EXPR", "{ { = EXPRESSION OPT_EXPR_MODS } }"),
    ("EXPR_CHAR", "ij[]+-*/%()SN"),
    ("EXPR_CHAR", "DIGIT"),
    ("EXPR_CHAR", "DOT"),
    ("EXPR_CHARS", "EXPR_CHAR EXPR_CHARS"),
    ("EXPR_CHARS", ""),
    ("EXPRESSION", "EXPR_CHAR EXPR_CHARS"),
    ("OPT_BACKREF_MOD", ": BACKREF_MOD"),
    ("OPT_BACKREF_MOD", ""),
    ("BACKREF_MOD", "BACKREF_MOD_FIRST"),
    ("BACKREF_MOD", "BACKREF_MOD_MIN_FIRST"),
    ("BACKREF_MOD_FIRST", "f i r s t"),
    ("BACKREF_MOD_MIN_FIRST", "- f i r s t"),
    ("OPT_EXPR_MODS", ": EXPR_MOD OPT_EXPR_MODS"),
    ("OPT_EXPR_MODS", ""),
    ("EXPR_MOD", "f i x e d ( NUMBER )"),
    ("EXPR_MOD", "s i m p l i f y"),
    ("BACKREF", "\\ DIGIT"),
    ("ESC_META_CHAR", "\\ META_CHAR"),
    ("ESC_META_CHAR_SPEC", "\\ META_CHAR_SPEC"),
    ("WHITESPACE", "\\ s"),
    ("NON_WHITESPACE", "\\ S"),
    ("DIGIT_ALIAS", "\\ d"),
    ("NON_DIGIT_ALIAS", "\\ D"),
    ("WORD_CHAR", "\\ w"),
    ("NON_WORD_CHAR", "\\ W") ]

/-- The grammar of patterns, which starts at `REGEX`. -/
def patternGrammar : Grammar := Grammar.ofRules patternRules

end PatternText
