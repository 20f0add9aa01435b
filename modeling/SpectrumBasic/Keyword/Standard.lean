import SpectrumBasic.Keyword.Table

/-!
# The keywords of the machine

The table every conversion uses unless it is given another one: the keywords of the 48K and 128K
machines, those the Next adds, and the two one-word spellings of `GO TO` and `GO SUB`.
-/

namespace SpectrumBasic.Table

/-- The keywords that the Next adds. -/
def extensionKeywords : List (String × UInt8) :=
  [("PEEK$", 0x87), ("REG", 0x88), ("DPOKE", 0x89), ("DPEEK", 0x8A), ("MOD", 0x8B),
   ("<<", 0x8C), (">>", 0x8D), ("UNTIL", 0x8E), ("ERROR", 0x8F), ("ON", 0x90),
   ("DEFPROC", 0x91), ("ENDPROC", 0x92), ("PROC", 0x93), ("LOCAL", 0x94), ("DRIVER", 0x95),
   ("WHILE", 0x96), ("REPEAT", 0x97), ("ELSE", 0x98), ("REMOUNT", 0x99), ("BANK", 0x9A),
   ("TILE", 0x9B), ("LAYER", 0x9C), ("PALETTE", 0x9D), ("SPRITE", 0x9E), ("PWD", 0x9F),
   ("CD", 0xA0), ("MKDIR", 0xA1), ("RMDIR", 0xA2)]

/-- The keywords of the 48K and 128K machines. -/
def standardKeywords : List (String × UInt8) :=
  [("SPECTRUM", 0xA3), ("PLAY", 0xA4), ("RND", 0xA5), ("INKEY$", 0xA6), ("PI", 0xA7),
   ("FN", 0xA8), ("POINT", 0xA9), ("SCREEN$", 0xAA), ("ATTR", 0xAB), ("AT", 0xAC),
   ("TAB", 0xAD), ("VAL$", 0xAE), ("CODE", 0xAF), ("VAL", 0xB0), ("LEN", 0xB1), ("SIN", 0xB2),
   ("COS", 0xB3), ("TAN", 0xB4), ("ASN", 0xB5), ("ACS", 0xB6), ("ATN", 0xB7), ("LN", 0xB8),
   ("EXP", 0xB9), ("INT", 0xBA), ("SQR", 0xBB), ("SGN", 0xBC), ("ABS", 0xBD), ("PEEK", 0xBE),
   ("IN", 0xBF), ("USR", 0xC0), ("STR$", 0xC1), ("CHR$", 0xC2), ("NOT", 0xC3), ("BIN", 0xC4),
   ("OR", 0xC5), ("AND", 0xC6), ("<=", 0xC7), (">=", 0xC8), ("<>", 0xC9), ("LINE", 0xCA),
   ("THEN", 0xCB), ("TO", 0xCC), ("STEP", 0xCD), ("DEF FN", 0xCE), ("CAT", 0xCF),
   ("FORMAT", 0xD0), ("MOVE", 0xD1), ("ERASE", 0xD2), ("OPEN #", 0xD3), ("CLOSE #", 0xD4),
   ("MERGE", 0xD5), ("VERIFY", 0xD6), ("BEEP", 0xD7), ("CIRCLE", 0xD8), ("INK", 0xD9),
   ("PAPER", 0xDA), ("FLASH", 0xDB), ("BRIGHT", 0xDC), ("INVERSE", 0xDD), ("OVER", 0xDE),
   ("OUT", 0xDF), ("LPRINT", 0xE0), ("LLIST", 0xE1), ("STOP", 0xE2), ("READ", 0xE3),
   ("DATA", 0xE4), ("RESTORE", 0xE5), ("NEW", 0xE6), ("BORDER", 0xE7), ("CONTINUE", 0xE8),
   ("DIM", 0xE9), ("REM", 0xEA), ("FOR", 0xEB), ("GO TO", 0xEC), ("GO SUB", 0xED),
   ("INPUT", 0xEE), ("LOAD", 0xEF), ("LIST", 0xF0), ("LET", 0xF1), ("PAUSE", 0xF2),
   ("NEXT", 0xF3), ("POKE", 0xF4), ("PRINT", 0xF5), ("PLOT", 0xF6), ("RUN", 0xF7),
   ("SAVE", 0xF8), ("RANDOMIZE", 0xF9), ("IF", 0xFA), ("CLS", 0xFB), ("DRAW", 0xFC),
   ("CLEAR", 0xFD), ("RETURN", 0xFE), ("COPY", 0xFF)]

/-- Other spellings that are read but never listed. -/
def standardAliases : List (String × UInt8) := [("GOTO", 0xEC), ("GOSUB", 0xED)]

/-- The machine's own table. -/
def standard : Table where
  keywords :=
    (extensionKeywords ++ standardKeywords).map (fun (word, code) => ⟨word.toList, code, true⟩)
      ++ standardAliases.map fun (word, code) => ⟨word.toList, code, false⟩

/-- The table to convert with: the one given, unless there is none or it is empty. -/
def orStandard : Option Table → Table
  | none => standard
  | some table => if table.keywords.isEmpty then standard else table

def entries (table : Table) : List Entry :=
  table.keywords.map fun k => ⟨k.spelling, k.code.toNat, k.canonical⟩

end SpectrumBasic.Table
