import PageMarkup.Entity.Basic

/-! Entities whose names begin with a letter from d to h, sorted by name. -/

namespace PageMarkup.Entity

def lowerDToH : List Entity :=
  [⟨"dArr;", "⇓"⟩, ⟨"dHar;", "⥥"⟩, ⟨"dagger;", "†"⟩, ⟨"daleth;", "ℸ"⟩, ⟨"darr;", "↓"⟩,
    ⟨"dash;", "‐"⟩, ⟨"dashv;", "⊣"⟩, ⟨"dbkarow;", "⤏"⟩, ⟨"dblac;", "˝"⟩, ⟨"dcaron;", "ď"⟩,
    ⟨"dcy;", "д"⟩, ⟨"dd;", "ⅆ"⟩, ⟨"ddagger;", "‡"⟩, ⟨"ddarr;", "⇊"⟩, ⟨"ddotseq;", "⩷"⟩,
    ⟨"deg", "°"⟩, ⟨"deg;", "°"⟩, ⟨"delta;", "δ"⟩, ⟨"demptyv;", "⦱"⟩, ⟨"dfisht;", "⥿"⟩,
    ⟨"dfr;", "𝔡"⟩, ⟨"dharl;", "⇃"⟩, ⟨"dharr;", "⇂"⟩, ⟨"diam;", "⋄"⟩, ⟨"diamond;", "⋄"⟩,
    ⟨"diamondsuit;", "♦"⟩, ⟨"diams;", "♦"⟩, ⟨"die;", "¨"⟩, ⟨"digamma;", "ϝ"⟩, ⟨"disin;", "⋲"⟩,
    ⟨"div;", "÷"⟩, ⟨"divide", "÷"⟩, ⟨"divide;", "÷"⟩, ⟨"divideontimes;", "⋇"⟩, ⟨"divonx;", "⋇"⟩,
    ⟨"djcy;", "ђ"⟩, ⟨"dlcorn;", "⌞"⟩, ⟨"dlcrop;", "⌍"⟩, ⟨"dollar;", "$"⟩, ⟨"dopf;", "𝕕"⟩,
    ⟨"dot;", "˙"⟩, ⟨"doteq;", "≐"⟩, ⟨"doteqdot;", "≑"⟩, ⟨"dotminus;", "∸"⟩, ⟨"dotplus;", "∔"⟩,
    ⟨"dotsquare;", "⊡"⟩, ⟨"doublebarwedge;", "⌆"⟩, ⟨"downarrow;", "↓"⟩, ⟨"downdownarrows;", "⇊"⟩,
    ⟨"downharpoonleft;", "⇃"⟩, ⟨"downharpoonright;", "⇂"⟩, ⟨"drbkarow;", "⤐"⟩, ⟨"drcorn;", "⌟"⟩,
    ⟨"drcrop;", "⌌"⟩, ⟨"dscr;", "𝒹"⟩, ⟨"dscy;", "ѕ"⟩, ⟨"dsol;", "⧶"⟩, ⟨"dstrok;", "đ"⟩,
    ⟨"dtdot;", "⋱"⟩, ⟨"dtri;", "▿"⟩, ⟨"dtrif;", "▾"⟩, ⟨"duarr;", "⇵"⟩, ⟨"duhar;", "⥯"⟩,
    ⟨"dwangle;", "⦦"⟩, ⟨"dzcy;", "џ"⟩, ⟨"dzigrarr;", "⟿"⟩, ⟨"eDDot;", "⩷"⟩, ⟨"eDot;", "≑"⟩,
    ⟨"eacute", "é"⟩, ⟨"eacute;", "é"⟩, ⟨"easter;", "⩮"⟩, ⟨"ecaron;", "ě"⟩, ⟨"ecir;", "≖"⟩,
    ⟨"ecirc", "ê"⟩, ⟨"ecirc;", "ê"⟩, ⟨"ecolon;", "≕"⟩, ⟨"ecy;", "э"⟩, ⟨"edot;", "ė"⟩,
    ⟨"ee;", "ⅇ"⟩, ⟨"efDot;", "≒"⟩, ⟨"efr;", "𝔢"⟩, ⟨"eg;", "⪚"⟩, ⟨"egrave", "è"⟩, ⟨"egrave;", "è"⟩,
    ⟨"egs;", "⪖"⟩, ⟨"egsdot;", "⪘"⟩, ⟨"el;", "⪙"⟩, ⟨"elinters;", "⏧"⟩, ⟨"ell;", "ℓ"⟩,
    ⟨"els;", "⪕"⟩, ⟨"elsdot;", "⪗"⟩, ⟨"emacr;", "ē"⟩, ⟨"empty;", "∅"⟩, ⟨"emptyset;", "∅"⟩,
    ⟨"emptyv;", "∅"⟩, ⟨"emsp13;", "\u2004"⟩, ⟨"emsp14;", "\u2005"⟩, ⟨"emsp;", "\u2003"⟩,
    ⟨"eng;", "ŋ"⟩, ⟨"ensp;", "\u2002"⟩, ⟨"eogon;", "ę"⟩, ⟨"eopf;", "𝕖"⟩, ⟨"epar;", "⋕"⟩,
    ⟨"eparsl;", "⧣"⟩, ⟨"eplus;", "⩱"⟩, ⟨"epsi;", "ε"⟩, ⟨"epsilon;", "ε"⟩, ⟨"epsiv;", "ϵ"⟩,
    ⟨"eqcirc;", "≖"⟩, ⟨"eqcolon;", "≕"⟩, ⟨"eqsim;", "≂"⟩, ⟨"eqslantgtr;", "⪖"⟩,
    ⟨"eqslantless;", "⪕"⟩, ⟨"equals;", "="⟩, ⟨"equest;", "≟"⟩, ⟨"equiv;", "≡"⟩, ⟨"equivDD;", "⩸"⟩,
    ⟨"eqvparsl;", "⧥"⟩, ⟨"erDot;", "≓"⟩, ⟨"erarr;", "⥱"⟩, ⟨"escr;", "ℯ"⟩, ⟨"esdot;", "≐"⟩,
    ⟨"esim;", "≂"⟩, ⟨"eta;", "η"⟩, ⟨"eth", "ð"⟩, ⟨"eth;", "ð"⟩, ⟨"euml", "ë"⟩, ⟨"euml;", "ë"⟩,
    ⟨"euro;", "€"⟩, ⟨"excl;", "!"⟩, ⟨"exist;", "∃"⟩, ⟨"expectation;", "ℰ"⟩,
    ⟨"exponentiale;", "ⅇ"⟩, ⟨"fallingdotseq;", "≒"⟩, ⟨"fcy;", "ф"⟩, ⟨"female;", "♀"⟩,
    ⟨"ffilig;", "ﬃ"⟩, ⟨"fflig;", "ﬀ"⟩, ⟨"ffllig;", "ﬄ"⟩, ⟨"ffr;", "𝔣"⟩, ⟨"filig;", "ﬁ"⟩,
    ⟨"fjlig;", "fj"⟩, ⟨"flat;", "♭"⟩, ⟨"fllig;", "ﬂ"⟩, ⟨"fltns;", "▱"⟩, ⟨"fnof;", "ƒ"⟩,
    ⟨"fopf;", "𝕗"⟩, ⟨"forall;", "∀"⟩, ⟨"fork;", "⋔"⟩, ⟨"forkv;", "⫙"⟩, ⟨"fpartint;", "⨍"⟩,
    ⟨"frac12", "½"⟩, ⟨"frac12;", "½"⟩, ⟨"frac13;", "⅓"⟩, ⟨"frac14", "¼"⟩, ⟨"frac14;", "¼"⟩,
    ⟨"frac15;", "⅕"⟩, ⟨"frac16;", "⅙"⟩, ⟨"frac18;", "⅛"⟩, ⟨"frac23;", "⅔"⟩, ⟨"frac25;", "⅖"⟩,
    ⟨"frac34", "¾"⟩, ⟨"frac34;", "¾"⟩, ⟨"frac35;", "⅗"⟩, ⟨"frac38;", "⅜"⟩, ⟨"frac45;", "⅘"⟩,
    ⟨"frac56;", "⅚"⟩, ⟨"frac58;", "⅝"⟩, ⟨"frac78;", "⅞"⟩, ⟨"frasl;", "⁄"⟩, ⟨"frown;", "⌢"⟩,
    ⟨"fscr;", "𝒻"⟩, ⟨"gE;", "≧"⟩, ⟨"gEl;", "⪌"⟩, ⟨"gacute;", "ǵ"⟩, ⟨"gamma;", "γ"⟩,
    ⟨"gammad;", "ϝ"⟩, ⟨"gap;", "⪆"⟩, ⟨"gbreve;", "ğ"⟩, ⟨"gcirc;", "ĝ"⟩, ⟨"gcy;", "г"⟩,
    ⟨"gdot;", "ġ"⟩, ⟨"ge;", "≥"⟩, ⟨"gel;", "⋛"⟩, ⟨"geq;", "≥"⟩, ⟨"geqq;", "≧"⟩,
    ⟨"geqslant;", "⩾"⟩, ⟨"ges;", "⩾"⟩, ⟨"gescc;", "⪩"⟩, ⟨"gesdot;", "⪀"⟩, ⟨"gesdoto;", "⪂"⟩,
    ⟨"gesdotol;", "⪄"⟩, ⟨"gesl;", "⋛\ufe00"⟩, ⟨"gesles;", "⪔"⟩, ⟨"gfr;", "𝔤"⟩, ⟨"gg;", "≫"⟩,
    ⟨"ggg;", "⋙"⟩, ⟨"gimel;", "ℷ"⟩, ⟨"gjcy;", "ѓ"⟩, ⟨"gl;", "≷"⟩, ⟨"glE;", "⪒"⟩, ⟨"gla;", "⪥"⟩,
    ⟨"glj;", "⪤"⟩, ⟨"gnE;", "≩"⟩, ⟨"gnap;", "⪊"⟩, ⟨"gnapprox;", "⪊"⟩, ⟨"gne;", "⪈"⟩,
    ⟨"gneq;", "⪈"⟩, ⟨"gneqq;", "≩"⟩, ⟨"gnsim;", "⋧"⟩, ⟨"gopf;", "𝕘"⟩, ⟨"grave;", "`"⟩,
    ⟨"gscr;", "ℊ"⟩, ⟨"gsim;", "≳"⟩, ⟨"gsime;", "⪎"⟩, ⟨"gsiml;", "⪐"⟩, ⟨"gt", ">"⟩, ⟨"gt;", ">"⟩,
    ⟨"gtcc;", "⪧"⟩, ⟨"gtcir;", "⩺"⟩, ⟨"gtdot;", "⋗"⟩, ⟨"gtlPar;", "⦕"⟩, ⟨"gtquest;", "⩼"⟩,
    ⟨"gtrapprox;", "⪆"⟩, ⟨"gtrarr;", "⥸"⟩, ⟨"gtrdot;", "⋗"⟩, ⟨"gtreqless;", "⋛"⟩,
    ⟨"gtreqqless;", "⪌"⟩, ⟨"gtrless;", "≷"⟩, ⟨"gtrsim;", "≳"⟩, ⟨"gvertneqq;", "≩\ufe00"⟩,
    ⟨"gvnE;", "≩\ufe00"⟩, ⟨"hArr;", "⇔"⟩, ⟨"hairsp;", "\u200a"⟩, ⟨"half;", "½"⟩, ⟨"hamilt;", "ℋ"⟩,
    ⟨"hardcy;", "ъ"⟩, ⟨"harr;", "↔"⟩, ⟨"harrcir;", "⥈"⟩, ⟨"harrw;", "↭"⟩, ⟨"hbar;", "ℏ"⟩,
    ⟨"hcirc;", "ĥ"⟩, ⟨"hearts;", "♥"⟩, ⟨"heartsuit;", "♥"⟩, ⟨"hellip;", "…"⟩, ⟨"hercon;", "⊹"⟩,
    ⟨"hfr;", "𝔥"⟩, ⟨"hksearow;", "⤥"⟩, ⟨"hkswarow;", "⤦"⟩, ⟨"hoarr;", "⇿"⟩, ⟨"homtht;", "∻"⟩,
    ⟨"hookleftarrow;", "↩"⟩, ⟨"hookrightarrow;", "↪"⟩, ⟨"hopf;", "𝕙"⟩, ⟨"horbar;", "―"⟩,
    ⟨"hscr;", "𝒽"⟩, ⟨"hslash;", "ℏ"⟩, ⟨"hstrok;", "ħ"⟩, ⟨"hybull;", "⁃"⟩, ⟨"hyphen;", "‐"⟩]

end PageMarkup.Entity
