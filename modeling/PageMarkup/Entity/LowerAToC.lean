import PageMarkup.Entity.Basic

/-! Entities whose names begin with a letter from a to c, sorted by name. -/

namespace PageMarkup.Entity

def lowerAToC : List Entity :=
  [⟨"aacute", "á"⟩, ⟨"aacute;", "á"⟩, ⟨"abreve;", "ă"⟩, ⟨"ac;", "∾"⟩, ⟨"acE;", "∾\u0333"⟩,
    ⟨"acd;", "∿"⟩, ⟨"acirc", "â"⟩, ⟨"acirc;", "â"⟩, ⟨"acute", "´"⟩, ⟨"acute;", "´"⟩,
    ⟨"acy;", "а"⟩, ⟨"aelig", "æ"⟩, ⟨"aelig;", "æ"⟩, ⟨"af;", "\u2061"⟩, ⟨"afr;", "𝔞"⟩,
    ⟨"agrave", "à"⟩, ⟨"agrave;", "à"⟩, ⟨"alefsym;", "ℵ"⟩, ⟨"aleph;", "ℵ"⟩, ⟨"alpha;", "α"⟩,
    ⟨"amacr;", "ā"⟩, ⟨"amalg;", "⨿"⟩, ⟨"amp", "&"⟩, ⟨"amp;", "&"⟩, ⟨"and;", "∧"⟩,
    ⟨"andand;", "⩕"⟩, ⟨"andd;", "⩜"⟩, ⟨"andslope;", "⩘"⟩, ⟨"andv;", "⩚"⟩, ⟨"ang;", "∠"⟩,
    ⟨"ange;", "⦤"⟩, ⟨"angle;", "∠"⟩, ⟨"angmsd;", "∡"⟩, ⟨"angmsdaa;", "⦨"⟩, ⟨"angmsdab;", "⦩"⟩,
    ⟨"angmsdac;", "⦪"⟩, ⟨"angmsdad;", "⦫"⟩, ⟨"angmsdae;", "⦬"⟩, ⟨"angmsdaf;", "⦭"⟩,
    ⟨"angmsdag;", "⦮"⟩, ⟨"angmsdah;", "⦯"⟩, ⟨"angrt;", "∟"⟩, ⟨"angrtvb;", "⊾"⟩,
    ⟨"angrtvbd;", "⦝"⟩, ⟨"angsph;", "∢"⟩, ⟨"angst;", "Å"⟩, ⟨"angzarr;", "⍼"⟩, ⟨"aogon;", "ą"⟩,
    ⟨"aopf;", "𝕒"⟩, ⟨"ap;", "≈"⟩, ⟨"apE;", "⩰"⟩, ⟨"apacir;", "⩯"⟩, ⟨"ape;", "≊"⟩, ⟨"apid;", "≋"⟩,
    ⟨"apos;", "'"⟩, ⟨"approx;", "≈"⟩, ⟨"approxeq;", "≊"⟩, ⟨"aring", "å"⟩, ⟨"aring;", "å"⟩,
    ⟨"ascr;", "𝒶"⟩, ⟨"ast;", "*"⟩, ⟨"asymp;", "≈"⟩, ⟨"asympeq;", "≍"⟩, ⟨"atilde", "ã"⟩,
    ⟨"atilde;", "ã"⟩, ⟨"auml", "ä"⟩, ⟨"auml;", "ä"⟩, ⟨"awconint;", "∳"⟩, ⟨"awint;", "⨑"⟩,
    ⟨"bNot;", "⫭"⟩, ⟨"backcong;", "≌"⟩, ⟨"backepsilon;", "϶"⟩, ⟨"backprime;", "‵"⟩,
    ⟨"backsim;", "∽"⟩, ⟨"backsimeq;", "⋍"⟩, ⟨"barvee;", "⊽"⟩, ⟨"barwed;", "⌅"⟩,
    ⟨"barwedge;", "⌅"⟩, ⟨"bbrk;", "⎵"⟩, ⟨"bbrktbrk;", "⎶"⟩, ⟨"bcong;", "≌"⟩, ⟨"bcy;", "б"⟩,
    ⟨"bdquo;", "„"⟩, ⟨"becaus;", "∵"⟩, ⟨"because;", "∵"⟩, ⟨"bemptyv;", "⦰"⟩, ⟨"bepsi;", "϶"⟩,
    ⟨"bernou;", "ℬ"⟩, ⟨"beta;", "β"⟩, ⟨"beth;", "ℶ"⟩, ⟨"between;", "≬"⟩, ⟨"bfr;", "𝔟"⟩,
    ⟨"bigcap;", "⋂"⟩, ⟨"bigcirc;", "◯"⟩, ⟨"bigcup;", "⋃"⟩, ⟨"bigodot;", "⨀"⟩, ⟨"bigoplus;", "⨁"⟩,
    ⟨"bigotimes;", "⨂"⟩, ⟨"bigsqcup;", "⨆"⟩, ⟨"bigstar;", "★"⟩, ⟨"bigtriangledown;", "▽"⟩,
    ⟨"bigtriangleup;", "△"⟩, ⟨"biguplus;", "⨄"⟩, ⟨"bigvee;", "⋁"⟩, ⟨"bigwedge;", "⋀"⟩,
    ⟨"bkarow;", "⤍"⟩, ⟨"blacklozenge;", "⧫"⟩, ⟨"blacksquare;", "▪"⟩, ⟨"blacktriangle;", "▴"⟩,
    ⟨"blacktriangledown;", "▾"⟩, ⟨"blacktriangleleft;", "◂"⟩, ⟨"blacktriangleright;", "▸"⟩,
    ⟨"blank;", "␣"⟩, ⟨"blk12;", "▒"⟩, ⟨"blk14;", "░"⟩, ⟨"blk34;", "▓"⟩, ⟨"block;", "█"⟩,
    ⟨"bne;", "=\u20e5"⟩, ⟨"bnequiv;", "≡\u20e5"⟩, ⟨"bnot;", "⌐"⟩, ⟨"bopf;", "𝕓"⟩, ⟨"bot;", "⊥"⟩,
    ⟨"bottom;", "⊥"⟩, ⟨"bowtie;", "⋈"⟩, ⟨"boxDL;", "╗"⟩, ⟨"boxDR;", "╔"⟩, ⟨"boxDl;", "╖"⟩,
    ⟨"boxDr;", "╓"⟩, ⟨"boxH;", "═"⟩, ⟨"boxHD;", "╦"⟩, ⟨"boxHU;", "╩"⟩, ⟨"boxHd;", "╤"⟩,
    ⟨"boxHu;", "╧"⟩, ⟨"boxUL;", "╝"⟩, ⟨"boxUR;", "╚"⟩, ⟨"boxUl;", "╜"⟩, ⟨"boxUr;", "╙"⟩,
    ⟨"boxV;", "║"⟩, ⟨"boxVH;", "╬"⟩, ⟨"boxVL;", "╣"⟩, ⟨"boxVR;", "╠"⟩, ⟨"boxVh;", "╫"⟩,
    ⟨"boxVl;", "╢"⟩, ⟨"boxVr;", "╟"⟩, ⟨"boxbox;", "⧉"⟩, ⟨"boxdL;", "╕"⟩, ⟨"boxdR;", "╒"⟩,
    ⟨"boxdl;", "┐"⟩, ⟨"boxdr;", "┌"⟩, ⟨"boxh;", "─"⟩, ⟨"boxhD;", "╥"⟩, ⟨"boxhU;", "╨"⟩,
    ⟨"boxhd;", "┬"⟩, ⟨"boxhu;", "┴"⟩, ⟨"boxminus;", "⊟"⟩, ⟨"boxplus;", "⊞"⟩, ⟨"boxtimes;", "⊠"⟩,
    ⟨"boxuL;", "╛"⟩, ⟨"boxuR;", "╘"⟩, ⟨"boxul;", "┘"⟩, ⟨"boxur;", "└"⟩, ⟨"boxv;", "│"⟩,
    ⟨"boxvH;", "╪"⟩, ⟨"boxvL;", "╡"⟩, ⟨"boxvR;", "╞"⟩, ⟨"boxvh;", "┼"⟩, ⟨"boxvl;", "┤"⟩,
    ⟨"boxvr;", "├"⟩, ⟨"bprime;", "‵"⟩, ⟨"breve;", "˘"⟩, ⟨"brvbar", "¦"⟩, ⟨"brvbar;", "¦"⟩,
    ⟨"bscr;", "𝒷"⟩, ⟨"bsemi;", "⁏"⟩, ⟨"bsim;", "∽"⟩, ⟨"bsime;", "⋍"⟩, ⟨"bsol;", "\\"⟩,
    ⟨"bsolb;", "⧅"⟩, ⟨"bsolhsub;", "⟈"⟩, ⟨"bull;", "•"⟩, ⟨"bullet;", "•"⟩, ⟨"bump;", "≎"⟩,
    ⟨"bumpE;", "⪮"⟩, ⟨"bumpe;", "≏"⟩, ⟨"bumpeq;", "≏"⟩, ⟨"cacute;", "ć"⟩, ⟨"cap;", "∩"⟩,
    ⟨"capand;", "⩄"⟩, ⟨"capbrcup;", "⩉"⟩, ⟨"capcap;", "⩋"⟩, ⟨"capcup;", "⩇"⟩, ⟨"capdot;", "⩀"⟩,
    ⟨"caps;", "∩\ufe00"⟩, ⟨"caret;", "⁁"⟩, ⟨"caron;", "ˇ"⟩, ⟨"ccaps;", "⩍"⟩, ⟨"ccaron;", "č"⟩,
    ⟨"ccedil", "ç"⟩, ⟨"ccedil;", "ç"⟩, ⟨"ccirc;", "ĉ"⟩, ⟨"ccups;", "⩌"⟩, ⟨"ccupssm;", "⩐"⟩,
    ⟨"cdot;", "ċ"⟩, ⟨"cedil", "¸"⟩, ⟨"cedil;", "¸"⟩, ⟨"cemptyv;", "⦲"⟩, ⟨"cent", "¢"⟩,
    ⟨"cent;", "¢"⟩, ⟨"centerdot;", "·"⟩, ⟨"cfr;", "𝔠"⟩, ⟨"chcy;", "ч"⟩, ⟨"check;", "✓"⟩,
    ⟨"checkmark;", "✓"⟩, ⟨"chi;", "χ"⟩, ⟨"cir;", "○"⟩, ⟨"cirE;", "⧃"⟩, ⟨"circ;", "ˆ"⟩,
    ⟨"circeq;", "≗"⟩, ⟨"circlearrowleft;", "↺"⟩, ⟨"circlearrowright;", "↻"⟩, ⟨"circledR;", "®"⟩,
    ⟨"circledS;", "Ⓢ"⟩, ⟨"circledast;", "⊛"⟩, ⟨"circledcirc;", "⊚"⟩, ⟨"circleddash;", "⊝"⟩,
    ⟨"cire;", "≗"⟩, ⟨"cirfnint;", "⨐"⟩, ⟨"cirmid;", "⫯"⟩, ⟨"cirscir;", "⧂"⟩, ⟨"clubs;", "♣"⟩,
    ⟨"clubsuit;", "♣"⟩, ⟨"colon;", ":"⟩, ⟨"colone;", "≔"⟩, ⟨"coloneq;", "≔"⟩, ⟨"comma;", ","⟩,
    ⟨"commat;", "@"⟩, ⟨"comp;", "∁"⟩, ⟨"compfn;", "∘"⟩, ⟨"complement;", "∁"⟩, ⟨"complexes;", "ℂ"⟩,
    ⟨"cong;", "≅"⟩, ⟨"congdot;", "⩭"⟩, ⟨"conint;", "∮"⟩, ⟨"copf;", "𝕔"⟩, ⟨"coprod;", "∐"⟩,
    ⟨"copy", "©"⟩, ⟨"copy;", "©"⟩, ⟨"copysr;", "℗"⟩, ⟨"crarr;", "↵"⟩, ⟨"cross;", "✗"⟩,
    ⟨"cscr;", "𝒸"⟩, ⟨"csub;", "⫏"⟩, ⟨"csube;", "⫑"⟩, ⟨"csup;", "⫐"⟩, ⟨"csupe;", "⫒"⟩,
    ⟨"ctdot;", "⋯"⟩, ⟨"cudarrl;", "⤸"⟩, ⟨"cudarrr;", "⤵"⟩, ⟨"cuepr;", "⋞"⟩, ⟨"cuesc;", "⋟"⟩,
    ⟨"cularr;", "↶"⟩, ⟨"cularrp;", "⤽"⟩, ⟨"cup;", "∪"⟩, ⟨"cupbrcap;", "⩈"⟩, ⟨"cupcap;", "⩆"⟩,
    ⟨"cupcup;", "⩊"⟩, ⟨"cupdot;", "⊍"⟩, ⟨"cupor;", "⩅"⟩, ⟨"cups;", "∪\ufe00"⟩, ⟨"curarr;", "↷"⟩,
    ⟨"curarrm;", "⤼"⟩, ⟨"curlyeqprec;", "⋞"⟩, ⟨"curlyeqsucc;", "⋟"⟩, ⟨"curlyvee;", "⋎"⟩,
    ⟨"curlywedge;", "⋏"⟩, ⟨"curren", "¤"⟩, ⟨"curren;", "¤"⟩, ⟨"curvearrowleft;", "↶"⟩,
    ⟨"curvearrowright;", "↷"⟩, ⟨"cuvee;", "⋎"⟩, ⟨"cuwed;", "⋏"⟩, ⟨"cwconint;", "∲"⟩,
    ⟨"cwint;", "∱"⟩, ⟨"cylcty;", "⌭"⟩]

end PageMarkup.Entity
