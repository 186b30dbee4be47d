/-!
# The frame of a Bash script

What all Bash scripts have in common. The tables of one program are filled in at the placeholders;
the rest resolves the place on the command line, matches and scores as the library does, and
registers the completion.
-/

namespace ShellCompletion.Script.Bash

/-- The lines of a script, with a placeholder wherever a part depends on the program. -/
def frame : List String := [
  "# bash completion for @@IDENT@@",
  "#",
  "# Source this file or drop it into a bash-completion directory.",
  "# Requires bash 4.2 or newer; older shells skip it silently.",
  "#",
  "# Diagnostics: _@@IDENT@@_completion_debug [words...]",
  "",
  "if [ \"$\x7bBASH_VERSINFO[0]:-0\x7d\" -gt 4 ] || \x7b [ \"$\x7bBASH_VERSINFO[0]:-0\x7d\" -eq 4 ] && [ \"$\x7bBASH_VERSINFO[1]:-0\x7d\" -ge 2 ]; \x7d; then",
  "",
  "declare -g _@@IDENT@@_FUZZY_ENABLED=@@FUZZY_ENABLED@@",
  "declare -g _@@IDENT@@_FUZZY_MAX_CANDIDATES=@@MAX_CANDIDATES@@",
  "declare -g _@@IDENT@@_FUZZY_MIN_PATTERN_LENGTH=@@MIN_PATTERN_LENGTH@@",
  "declare -g _@@IDENT@@_FUZZY_SCORE_THRESHOLD=@@SCORE_THRESHOLD@@",
  "declare -g _@@IDENT@@_FUZZY_MAX_RESULTS=@@MAX_RESULTS@@",
  "declare -g _@@IDENT@@_FUZZY_CACHE_MAX_SIZE=@@CACHE_MAX_SIZE@@",
  "",
  "# context path -> index of its _@@IDENT@@_opts_N array",
  "declare -gA _@@IDENT@@_contexts=(",
  "@@CONTEXT_ENTRIES@@)",
  "@@OPTION_ARRAYS@@",
  "# \"context|flag\" -> value kind",
  "declare -gA _@@IDENT@@_flag_kinds=(",
  "@@FLAG_KIND_ENTRIES@@)",
  "# \"context|flag\" -> index of its _@@IDENT@@_enum_N array",
  "declare -gA _@@IDENT@@_flag_enums=(",
  "@@FLAG_ENUM_ENTRIES@@)",
  "@@ENUM_ARRAYS@@",
  "declare -gA _@@IDENT@@_score_cache=()",
  "",
  "# _@@IDENT@@_fuzzy_score PATTERN CANDIDATE",
  "# Sets _@@IDENT@@_score to a 0-100 score. Cache keys lead with the pattern",
  "# length, so a \"|\" inside either string cannot make two pairs collide.",
  "_@@IDENT@@_fuzzy_score() \x7b",
  "    local pattern=$1 candidate=$2",
  "    local key=\"$\x7b#pattern\x7d:$pattern|$candidate\"",
  "    if [[ -n $\x7b_@@IDENT@@_score_cache[$key]+set\x7d ]]; then",
  "        _@@IDENT@@_score=$\x7b_@@IDENT@@_score_cache[$key]\x7d",
  "        return 0",
  "    fi",
  "",
  "    local pat_len=$\x7b#pattern\x7d cand_len=$\x7b#candidate\x7d score=0",
  "    if (( cand_len >= pat_len )); then",
  "        local lp=$\x7bpattern,,\x7d lc=$\x7bcandidate,,\x7d i",
  "        if [[ $lc == \"$lp\"* ]]; then",
  "            score=100",
  "        else",
  "            local present=1",
  "            for (( i = 0; i < $\x7b#lp\x7d; i++ )); do",
  "                if [[ $lc != *\"$\x7blp:i:1\x7d\"* ]]; then",
  "                    present=0",
  "                    break",
  "                fi",
  "            done",
  "            if (( present )); then",
  "                local next=0 matched=0 run=0 max_run=0 last=-2 bonus=0 penalty",
  "                for (( i = 0; i < $\x7b#lc\x7d && next < $\x7b#lp\x7d; i++ )); do",
  "                    if [[ $\x7blc:i:1\x7d != \"$\x7blp:next:1\x7d\" ]]; then",
  "                        continue",
  "                    fi",
  "                    if (( i == 0 && next == 0 )); then",
  "                        bonus=20",
  "                    fi",
  "                    if (( last == i - 1 )); then",
  "                        run=$((run + 1))",
  "                    else",
  "                        run=1",
  "                    fi",
  "                    if (( run > max_run )); then",
  "                        max_run=$run",
  "                    fi",
  "                    last=$i",
  "                    matched=$((matched + 1))",
  "                    next=$((next + 1))",
  "                done",
  "                penalty=$((cand_len - pat_len))",
  "                if (( penalty > 10 )); then",
  "                    penalty=10",
  "                fi",
  "                score=$((matched * 60 / pat_len + max_run * 20 / pat_len + bonus - penalty))",
  "                if (( score < 0 )); then",
  "                    score=0",
  "                elif (( score > 100 )); then",
  "                    score=100",
  "                fi",
  "            fi",
  "        fi",
  "    fi",
  "",
  "    if (( $\x7b#_@@IDENT@@_score_cache[@]\x7d > _@@IDENT@@_FUZZY_CACHE_MAX_SIZE )); then",
  "        _@@IDENT@@_score_cache=()",
  "    fi",
  "    _@@IDENT@@_score_cache[$key]=$score",
  "    _@@IDENT@@_score=$score",
  "\x7d",
  "",
  "# _@@IDENT@@_match PATTERN CANDIDATE...",
  "# Sets _@@IDENT@@_matches to the filtered, ordered candidates.",
  "_@@IDENT@@_match() \x7b",
  "    local pattern=$1 cand",
  "    shift",
  "    _@@IDENT@@_matches=()",
  "",
  "    if (( $# > _@@IDENT@@_FUZZY_MAX_CANDIDATES )); then",
  "        for cand in \"$@\"; do",
  "            if [[ $cand == \"$pattern\"* ]]; then",
  "                _@@IDENT@@_matches+=(\"$cand\")",
  "            fi",
  "        done",
  "        return 0",
  "    fi",
  "",
  "    for cand in \"$@\"; do",
  "        if [[ $cand == \"$pattern\"* ]]; then",
  "            _@@IDENT@@_matches+=(\"$cand\")",
  "        fi",
  "    done",
  "    if (( $\x7b#_@@IDENT@@_matches[@]\x7d > 0 )); then",
  "        return 0",
  "    fi",
  "",
  "    local lp=$\x7bpattern,,\x7d",
  "    for cand in \"$@\"; do",
  "        if [[ $\x7bcand,,\x7d == \"$lp\"* ]]; then",
  "            _@@IDENT@@_matches+=(\"$cand\")",
  "        fi",
  "    done",
  "    if (( $\x7b#_@@IDENT@@_matches[@]\x7d > 0 )); then",
  "        return 0",
  "    fi",
  "",
  "    if (( _@@IDENT@@_FUZZY_ENABLED && $\x7b#pattern\x7d >= _@@IDENT@@_FUZZY_MIN_PATTERN_LENGTH )); then",
  "        local -a names=() scores=()",
  "        local s j",
  "        for cand in \"$@\"; do",
  "            _@@IDENT@@_fuzzy_score \"$pattern\" \"$cand\"",
  "            s=$_@@IDENT@@_score",
  "            if (( s > 0 && s >= _@@IDENT@@_FUZZY_SCORE_THRESHOLD )); then",
  "                j=$\x7b#scores[@]\x7d",
  "                while (( j > 0 && scores[j - 1] < s )); do",
  "                    scores[j]=$\x7bscores[j - 1]\x7d",
  "                    names[j]=$\x7bnames[j - 1]\x7d",
  "                    j=$((j - 1))",
  "                done",
  "                scores[j]=$s",
  "                names[j]=$cand",
  "            fi",
  "        done",
  "        if (( $\x7b#names[@]\x7d > 0 )); then",
  "            _@@IDENT@@_matches=(\"$\x7bnames[@]:0:_@@IDENT@@_FUZZY_MAX_RESULTS\x7d\")",
  "            return 0",
  "        fi",
  "    fi",
  "",
  "    for cand in \"$@\"; do",
  "        if [[ $\x7bcand,,\x7d == *\"$lp\"* ]]; then",
  "            _@@IDENT@@_matches+=(\"$cand\")",
  "        fi",
  "    done",
  "    return 0",
  "\x7d",
  "",
  "# _@@IDENT@@_resolve WORD...",
  "# Sets _@@IDENT@@_context from the words after the program name.",
  "_@@IDENT@@_resolve() \x7b",
  "    local word next",
  "    _@@IDENT@@_context=/",
  "    for word in \"$@\"; do",
  "        case $word in",
  "            -*) break ;;",
  "        esac",
  "        next=\"$_@@IDENT@@_context$word/\"",
  "        if [[ -z $\x7b_@@IDENT@@_contexts[$next]+set\x7d ]]; then",
  "            break",
  "        fi",
  "        _@@IDENT@@_context=$next",
  "    done",
  "    return 0",
  "\x7d",
  "",
  "# _@@IDENT@@_paths WORD",
  "# Sets _@@IDENT@@_matches to filesystem entries; directories end in \"/\".",
  "# Hidden entries are listed only when the typed name starts with \".\".",
  "# The result is sorted bytewise.",
  "_@@IDENT@@_paths() \x7b",
  "    local entry name typed=$\x7b1##*/\x7d",
  "    local -a entries=() found=()",
  "    _@@IDENT@@_matches=()",
  "    mapfile -t entries < <(compgen -f -- \"$1\" 2>/dev/null)",
  "    for entry in \"$\x7bentries[@]\x7d\"; do",
  "        name=$\x7bentry##*/\x7d",
  "        if [[ -z $name || $name == . || $name == .. ]]; then",
  "            continue",
  "        fi",
  "        if [[ $name == .* && $typed != .* ]]; then",
  "            continue",
  "        fi",
  "        if [[ -d $entry ]]; then",
  "            entry+=/",
  "        fi",
  "        found+=(\"$entry\")",
  "    done",
  "    if (( $\x7b#found[@]\x7d > 0 )); then",
  "        mapfile -t _@@IDENT@@_matches < <(printf '%s\\n' \"$\x7bfound[@]\x7d\" | LC_ALL=C sort)",
  "    fi",
  "    return 0",
  "\x7d",
  "",
  "_@@IDENT@@() \x7b",
  "    local _@@IDENT@@_context=/ _@@IDENT@@_score=0",
  "    local -a _@@IDENT@@_matches=()",
  "    local cur=$\x7bCOMP_WORDS[COMP_CWORD]:-\x7d",
  "    local -a words=(\"$\x7bCOMP_WORDS[@]:0:COMP_CWORD\x7d\")",
  "    local n=$\x7b#words[@]\x7d flag=\"\" prefix=\"\" key kind=\"\" ref idx",
  "    COMPREPLY=()",
  "",
  "    if [[ $cur == -*=* ]]; then",
  "        flag=$\x7bcur%%=*\x7d",
  "        prefix=\"$flag=\"",
  "        cur=$\x7bcur#*=\x7d",
  "    elif [[ $cur == \"=\" ]] && (( n > 0 )) && [[ $\x7bwords[n - 1]\x7d == -* ]]; then",
  "        flag=$\x7bwords[n - 1]\x7d",
  "        cur=\"\"",
  "    elif (( n > 1 )) && [[ $\x7bwords[n - 1]\x7d == \"=\" && $\x7bwords[n - 2]\x7d == -* ]]; then",
  "        flag=$\x7bwords[n - 2]\x7d",
  "    elif (( n > 0 )) && [[ $\x7bwords[n - 1]\x7d == -* ]]; then",
  "        flag=$\x7bwords[n - 1]\x7d",
  "    fi",
  "",
  "    _@@IDENT@@_resolve \"$\x7bwords[@]:1\x7d\"",
  "",
  "    if [[ -n $flag ]]; then",
  "        key=\"$_@@IDENT@@_context|$flag\"",
  "        kind=$\x7b_@@IDENT@@_flag_kinds[$key]:-\x7d",
  "    fi",
  "",
  "    case $kind in",
  "        enum)",
  "            ref=\"_@@IDENT@@_enum_$\x7b_@@IDENT@@_flag_enums[$key]:-0\x7d[@]\"",
  "            _@@IDENT@@_match \"$cur\" \"$\x7b!ref\x7d\"",
  "            COMPREPLY=(\"$\x7b_@@IDENT@@_matches[@]/#/$prefix\x7d\")",
  "            return 0",
  "            ;;",
  "        string)",
  "            _@@IDENT@@_paths \"$cur\"",
  "            COMPREPLY=(\"$\x7b_@@IDENT@@_matches[@]/#/$prefix\x7d\")",
  "            if [[ $\x7bCOMPREPLY[*]\x7d == */* ]]; then",
  "                compopt -o nospace 2>/dev/null",
  "            fi",
  "            return 0",
  "            ;;",
  "    esac",
  "",
  "    if [[ -n $prefix ]]; then",
  "        cur=\"$prefix$cur\"",
  "    fi",
  "    idx=$\x7b_@@IDENT@@_contexts[$_@@IDENT@@_context]:-0\x7d",
  "    ref=\"_@@IDENT@@_opts_$\x7bidx\x7d[@]\"",
  "    _@@IDENT@@_match \"$cur\" \"$\x7b!ref\x7d\"",
  "    COMPREPLY=(\"$\x7b_@@IDENT@@_matches[@]\x7d\")",
  "    return 0",
  "\x7d",
  "",
  "# _@@IDENT@@_completion_debug [WORD...]",
  "# Prints tunables and table sizes. With words (program name first, word",
  "# being completed last) also prints the resolved context and candidates.",
  "_@@IDENT@@_completion_debug() \x7b",
  "    local _@@IDENT@@_context=/",
  "    printf 'program: %s\\n' @@PROGRAM@@",
  "    printf 'fuzzy_enabled: %s\\n' \"$_@@IDENT@@_FUZZY_ENABLED\"",
  "    printf 'max_candidates: %s\\n' \"$_@@IDENT@@_FUZZY_MAX_CANDIDATES\"",
  "    printf 'min_pattern_length: %s\\n' \"$_@@IDENT@@_FUZZY_MIN_PATTERN_LENGTH\"",
  "    printf 'score_threshold: %s\\n' \"$_@@IDENT@@_FUZZY_SCORE_THRESHOLD\"",
  "    printf 'max_results: %s\\n' \"$_@@IDENT@@_FUZZY_MAX_RESULTS\"",
  "    printf 'cache: %s/%s\\n' \"$\x7b#_@@IDENT@@_score_cache[@]\x7d\" \"$_@@IDENT@@_FUZZY_CACHE_MAX_SIZE\"",
  "    printf 'contexts: %s\\n' \"$\x7b#_@@IDENT@@_contexts[@]\x7d\"",
  "    printf 'flag_params: %s\\n' \"$\x7b#_@@IDENT@@_flag_kinds[@]\x7d\"",
  "    if (( $# == 0 )); then",
  "        return 0",
  "    fi",
  "",
  "    local -a COMP_WORDS=(\"$@\") COMPREPLY=()",
  "    local COMP_CWORD=$(($# - 1))",
  "    local -a prior=(\"$\x7bCOMP_WORDS[@]:0:COMP_CWORD\x7d\")",
  "    _@@IDENT@@_resolve \"$\x7bprior[@]:1\x7d\"",
  "    printf 'context: %s\\n' \"$_@@IDENT@@_context\"",
  "    _@@IDENT@@",
  "    if (( $\x7b#COMPREPLY[@]\x7d > 0 )); then",
  "        printf 'candidate: %s\\n' \"$\x7bCOMPREPLY[@]\x7d\"",
  "    fi",
  "    return 0",
  "\x7d",
  "",
  "complete -F _@@IDENT@@ @@PROGRAM@@",
  "",
  "fi"]

end ShellCompletion.Script.Bash
